import StackScript.Proofs.Expressions.Computing

/-!
# The code of expressions

The instructions that stand for a tree from an address on: those of the operands in order, then the
operation; around the operands that may not be needed, branches over them.

Main statement: `Expr.computes`. Running the code of an expression has the effect of evaluating it.
-/
namespace StackScript

/-! ## Instructions -/

/-- The instructions of an operator, its operands on the stack. -/
def Operation.instructions : Operation → List Instruction
  | .or => [⟨.or, .none⟩]
  | .and => [⟨.and, .none⟩]
  | .equal => [⟨.equal, .none⟩]
  | .notEqual => [⟨.notEqual, .none⟩]
  | .lessOrEqual => [⟨.lessThanOrEqual, .none⟩]
  | .greaterOrEqual => [⟨.greaterThanOrEqual, .none⟩]
  | .less => [⟨.lessThan, .none⟩]
  | .greater => [⟨.greaterThan, .none⟩]
  | .add => [⟨.add, .none⟩]
  | .subtract => [⟨.sub, .none⟩]
  | .bitAnd => [⟨.bitAnd, .none⟩]
  | .multiply => [⟨.mul, .none⟩]
  | .divide => [⟨.div, .none⟩]
  | .remainder => [⟨.modulo, .none⟩]
  | .bitOr => [⟨.bitOr, .none⟩]
  | .power => [⟨.exp, .none⟩]
  | .shiftLeft => [⟨.bitShift, .none⟩]
  | .shiftRight => [⟨.negate, .none⟩, ⟨.bitShift, .none⟩]

/-- A right operand that is skipped when the left one decides. -/
def shortCircuitCode (decided : Bool) (start : Nat) (right : List Instruction) : List Instruction :=
  ⟨.dup, .none⟩ :: branchOn decided (start + right.length + 4) :: right ++
    [⟨if decided then .or else .and, .none⟩, ⟨.branch, .address (start + right.length + 6)⟩,
     ⟨.drop, .none⟩, ⟨.push, .value (.bool decided)⟩]

/-- The right operand of an operator and the operation, its left operand on the stack. -/
def Operation.rightCode (op : Operation) (start : Nat) (right : Nat → List Instruction) :
    List Instruction :=
  match op.decides? with
  | some decided => shortCircuitCode decided start (right (start + 2))
  | none => right start ++ op.instructions

/-- Two arms of which one is run; the top of the stack chooses. -/
def choiceCode (start : Nat) (yes no : List Instruction) : List Instruction :=
  branchOn false (start + yes.length + 2) :: yes ++
    ⟨.branch, .address (start + yes.length + 2 + no.length)⟩ :: no

theorem shortCircuitCode_length (decided : Bool) (start : Nat) (right : List Instruction) :
    (shortCircuitCode decided start right).length = 2 + (right.length + 4) := by
  simp [shortCircuitCode]
  omega

theorem choiceCode_length (start : Nat) (yes no : List Instruction) :
    (choiceCode start yes no).length = 1 + (yes.length + (1 + no.length)) := by
  simp [choiceCode]
  omega

mutual
/-- The instructions of an expression from an address on. -/
def Expr.code (spell : String → String) (start : Nat) : Expr → List Instruction
  | .literal l => [⟨.push, .value l.value⟩]
  | .name x => [⟨.load, .name (spell x)⟩]
  | .array items =>
    Expr.itemsCode spell start items ++ [⟨.array, .int (Int64.ofNat items.length)⟩]
  | .unary _ e => e.code spell start ++ [⟨.negate, .none⟩]
  | .binary op a b =>
    let left := a.code spell start
    left ++ op.rightCode (start + left.length) fun start => b.code spell start
  | .choice c a b =>
    let condition := c.code spell start
    let yes := a.code spell (start + condition.length + 1)
    condition ++ choiceCode (start + condition.length) yes
      (b.code spell (start + condition.length + yes.length + 2))
/-- The instructions of expressions one after the other. -/
def Expr.itemsCode (spell : String → String) (start : Nat) : List Expr → List Instruction
  | [] => []
  | e :: es =>
    let first := e.code spell start
    first ++ Expr.itemsCode spell (start + first.length) es
end

mutual
/-- Whether every array has so few items that a number counts them. -/
def Expr.Short : Expr → Prop
  | .literal _ | .name _ => True
  | .array items => items.length < countLimit ∧ Expr.ShortAll items
  | .unary _ e => e.Short
  | .binary _ a b => a.Short ∧ b.Short
  | .choice c a b => c.Short ∧ a.Short ∧ b.Short
def Expr.ShortAll : List Expr → Prop
  | [] => True
  | e :: es => e.Short ∧ Expr.ShortAll es
end

/-! ## Execution -/

open Exec (Does)

variable {c : Context} {w : World} {code : Code} {stack : Array Value}

theorem Placed.within {start : Nat} {is : List Instruction} (h : Placed code start is)
    (some : is ≠ []) : start + is.length ≤ code.size := by
  have last : is.length - 1 < is.length := by
    have := List.length_pos_iff.2 some
    omega
  have found := h _ _ (List.getElem?_eq_getElem last)
  have := (Array.getElem?_eq_some_iff.1 found).1
  simp only [Code.size]
  omega

/-- A literal is no function, so that pushing it takes nothing from the scope. -/
theorem pushOperand_literal {tag : TokenClass} {spelling : String} {v : Value}
    (reads : Token.literal? tag spelling = some v) :
    Exec.pushOperand (.value v) = Exec.push v := by
  cases tag with
  | integer =>
    obtain ⟨n, -, rfl⟩ := Option.map_eq_some_iff.1 reads
    rfl
  | float =>
    obtain ⟨x, -, rfl⟩ := Option.map_eq_some_iff.1 reads
    rfl
  | string | boolean =>
    cases reads
    rfl
  | reserved =>
    simp only [Token.literal?] at reads
    split at reads <;> cases reads
    rfl
  | identifier | punctuation | endOfInput => cases reads

theorem Literal.push_does (l : Literal) (stack : Array Value) :
    Does c w (Exec.perform ⟨.push, .value l.value⟩) stack (pure l.value) stack.push
      fun _ => () := by
  change Does c w (Exec.pushOperand (.value l.value)) stack (pure l.value) stack.push fun _ => ()
  rw [pushOperand_literal l.reads]
  exact .push l.value stack

/-- The instructions of an operator have its effect on the operands. -/
theorem Operation.instructions_compute {start : Nat} (op : Operation)
    (placed : Placed code start op.instructions) (high : c.base ≤ stack.size) (x y : Value) :
    Computes c w code start (start + op.instructions.length) ((stack.push x).push y)
      (op.apply c.strictness x y) stack.push := by
  cases op with
  | shiftRight =>
    refine .bind (.instruction placed.head (by decide) (.negateTop (by simp; omega) y))
      (negated_within Store.addsObjects_codes y).store fun n => ?_
    exact .instruction placed.tail.head (by decide) (.shiftBelow high x n)
  | shiftLeft => exact .instruction placed.head (by decide) (.shiftBelow high x y)
  | or => exact .instruction placed.head (by decide) (.logical high (· || ·) x y)
  | and => exact .instruction placed.head (by decide) (.logical high (· && ·) x y)
  | equal => exact .instruction placed.head (by decide) (.binary high (sameOr true) x y)
  | notEqual => exact .instruction placed.head (by decide) (.binary high (sameOr false) x y)
  | lessOrEqual | greaterOrEqual | less | greater =>
    exact .instruction placed.head (by decide) (.binary high (Operator.ordered _) x y)
  | add => exact .instruction placed.head (by decide) (.binary high Operator.add x y)
  | subtract => exact .instruction placed.head (by decide) (.binary high Operator.subtract x y)
  | bitAnd | bitOr =>
    exact .instruction placed.head (by decide) (.binary high (Operator.bitwise _ _) x y)
  | multiply | divide | remainder | power =>
    exact .instruction placed.head (by decide) (.binary high (Operator.Arithmetic.apply _) x y)

/-- What an evaluation in a context depends on. -/
def Context.setting (c : Context) (spell : String → String) : Setting :=
  { level := c.strictness, table := c.scope, spell := spell }

/-- A right operand that is skipped when the left one decides. -/
theorem shortCircuit_computes {start : Nat} {decided : Bool} {right : List Instruction}
    {m : StoreM Value} (placed : Placed code start (shortCircuitCode decided start right))
    (high : c.base ≤ stack.size) (x : Value)
    (same : ∀ s, (m s).2.codes = s.codes)
    (operand : Computes c w code (start + 2) (start + 2 + right.length) (stack.push x) m
      (stack.push x).push) :
    Computes c w code start (start + (shortCircuitCode decided start right).length) (stack.push x)
      (do
        if (← x.unchanged).isTruthy == decided then pure (.bool decided)
        else
          let y ← m
          pure (.bool (← y.unchanged).isTruthy)) stack.push := by
  have size := placed.within (by simp [shortCircuitCode])
  have length : (shortCircuitCode decided start right).length = right.length + 6 := by
    rw [shortCircuitCode_length]
    omega
  have after := placed.tail.tail.right
  rw [length] at size ⊢
  refine .first (.instruction placed.head (by simp) (.dup high x)) ?_
  refine .branchIf x (by simp; omega) placed.tail.head (by omega) ?_ ?_
  · intro _ _
    have short : start + 1 + 1 + right.length + 1 + 1 = start + right.length + 4 := by omega
    have push := after.tail.tail.tail.head
    have drop := after.tail.tail.head
    rw [short] at push drop
    have := Computes.first (.instruction drop (by simp) (.drop high x))
      (.instruction (w := w) push (by simp) (.push (.bool decided) stack))
    rwa [show start + right.length + 4 + 1 + 1 = start + (right.length + 6) by omega] at this
  · intro proper undecided
    refine operand.bind same fun y => ?_
    have logic : Does c w (Exec.perform ⟨if decided then .or else .and, .none⟩)
        ((stack.push x).push y) (do pure (.bool (← y.unchanged).isTruthy)) stack.push
        fun _ => () := by
      have left : x.unchanged = pure x := by simp [Value.unchanged, proper]
      cases decided with
      | true =>
        have := Does.logical (w := w) high (· || ·) x y
        simp only [onOperands, left, pure_bind, undecided, Bool.not_true, Bool.false_or] at this
        exact this
      | false =>
        have := Does.logical (w := w) high (· && ·) x y
        simp only [onOperands, left, pure_bind, undecided, Bool.not_false, Bool.true_and] at this
        exact this
    have applied : Computes c w code (start + 2 + right.length) (start + 2 + right.length + 1)
        ((stack.push x).push y) (do pure (.bool (← y.unchanged).isTruthy)) stack.push :=
      .instruction after.head (by cases decided <;> simp) logic
    have finish := after.tail.head
    rw [show start + right.length + 6 = start + (right.length + 6) by omega] at finish
    refine applied.thenJump ?_ finish size
    exact (StoreM.Within.bind Store.addsObjects_codes
      (Value.unchanged_within Store.addsObjects_codes y) fun _ =>
        .pure Store.addsObjects_codes _).store

theorem Expr.evalAll_length {σ : Setting} {s s' : Store} (es : List Expr) {vs : List Value}
    (h : Expr.evalAll σ es s = (.ok vs, s')) : vs.length = es.length := by
  induction es generalizing s vs with
  | nil =>
    cases h
    rfl
  | cons e es ih =>
    obtain ⟨v, s₁, -, h⟩ := StoreM.bind_ok h
    obtain ⟨rest, s₂, hrest, h⟩ := StoreM.bind_ok h
    cases h
    rw [List.length_cons, List.length_cons, ih hrest]

/-- A choice by a value is one by its opposite. -/
theorem ite_swap {α : Type} (x : Value) (m m' : StoreM α) :
    (do if (← x.unchanged).isTruthy then m else m') =
      (do if (← x.unchanged).isTruthy == false then m' else m) := by
  refine bind_congr fun v => ?_
  cases v.isTruthy <;> rfl

theorem Placed.second {start : Nat} {yes no : List Instruction}
    (h : Placed code start (choiceCode start yes no)) :
    Placed code (start + yes.length + 2) no := by
  have := h.tail.right.tail
  rwa [show start + 1 + yes.length + 1 = start + yes.length + 2 by omega] at this

/-- The top of the stack chooses between two arms. -/
theorem choice_computes {start : Nat} {yes no : List Instruction} {m m' : StoreM Value}
    (placed : Placed code start (choiceCode start yes no)) (high : c.base ≤ stack.size) (x : Value)
    (same : ∀ s, (m s).2.codes = s.codes)
    (first : Computes c w code (start + 1) (start + 1 + yes.length) stack m stack.push)
    (second : Computes c w code (start + yes.length + 2) (start + yes.length + 2 + no.length) stack
      m' stack.push) :
    Computes c w code start (start + (choiceCode start yes no).length) (stack.push x)
      (do if (← x.unchanged).isTruthy then m else m') stack.push := by
  have size := placed.within (by simp [choiceCode])
  have length : start + (choiceCode start yes no).length = start + yes.length + 2 + no.length := by
    rw [choiceCode_length]
    omega
  rw [length] at size ⊢
  rw [ite_swap]
  refine .branchIf x high placed.head (by omega) (fun _ _ => second) fun _ _ => ?_
  exact first.thenJump same placed.tail.right.head size

mutual
/-- Running the code of an expression has the effect of evaluating it. -/
theorem Expr.computes (spell : String → String) : (e : Expr) → (start : Nat) →
    (stack : Array Value) → e.Short → Placed code start (e.code spell start) →
    c.base ≤ stack.size →
    Computes c w code start (start + (e.code spell start).length) stack (e.eval (c.setting spell))
      stack.push
  | .literal l, start, stack, _, placed, _ =>
    .instruction placed.head (by simp) (l.push_does stack)
  | .name x, start, stack, _, placed, _ =>
    .instruction placed.head (by simp) (.loadName (spell x) stack)
  | .array items, start, stack, short, placed, high => by
    have all := Expr.allCompute spell items start stack short.2 placed.left high
    rw [Expr.code, List.length_append, ← Nat.add_assoc]
    refine all.bindOf (Expr.evalAll_within Store.addsObjects_codes _ items).store fun vs ⟨s, s', hvs⟩ => ?_
    have count : vs.length = items.length := Expr.evalAll_length items hvs
    have packs := placed.right.head
    rw [← count] at packs
    exact .instruction packs (by simp) (.packArray high vs (count ▸ short.1))
  | .unary _ e, start, stack, short, placed, high => by
    have operand := e.computes spell start stack short placed.left high
    rw [Expr.code, List.length_append, ← Nat.add_assoc]
    exact operand.bind (e.eval_codes _) fun v =>
      .instruction placed.right.head (by simp) (.negateTop high v)
  | .binary op a b, start, stack, short, placed, high => by
    have left := a.computes spell start stack short.1 placed.left high
    have codes := placed.right
    rw [Expr.code, List.length_append, ← Nat.add_assoc]
    refine left.bind (a.eval_codes _) fun x => ?_
    simp only [Operation.rightCode] at codes ⊢
    cases h : op.decides? with
    | some decided =>
      simp only [h] at codes ⊢
      refine shortCircuit_computes codes high x (b.eval_codes _) ?_
      exact b.computes spell _ (stack.push x) short.2 codes.tail.tail.left (by simp; omega)
    | none =>
      simp only [h, List.length_append, ← Nat.add_assoc] at codes ⊢
      have right := b.computes spell _ (stack.push x) short.2 codes.left (by simp; omega)
      refine right.bind (b.eval_codes _) fun y => ?_
      exact op.instructions_compute codes.right high x y
  | .choice e a b, start, stack, short, placed, high => by
    have condition := e.computes spell start stack short.1 placed.left high
    have branches : Placed code _ (choiceCode _ _ _) := placed.right
    rw [Expr.code, List.length_append, ← Nat.add_assoc]
    refine condition.bind (e.eval_codes _) fun x => ?_
    refine choice_computes branches high x (a.eval_codes _) ?_ ?_
    · exact a.computes spell _ stack short.2.1 branches.tail.left high
    · exact b.computes spell _ stack short.2.2 branches.second high
theorem Expr.allCompute (spell : String → String) : (es : List Expr) → (start : Nat) →
    (stack : Array Value) → Expr.ShortAll es → Placed code start (Expr.itemsCode spell start es) →
    c.base ≤ stack.size →
    Computes c w code start (start + (Expr.itemsCode spell start es).length) stack
      (Expr.evalAll (c.setting spell) es) fun vs => stack ++ vs.toArray
  | [], start, stack, _, _, _ => .refl [] (by simp)
  | e :: es, start, stack, short, placed, high => by
    have first := e.computes spell start stack short.1 placed.left high
    rw [Expr.itemsCode, List.length_append, ← Nat.add_assoc]
    refine first.bind (e.eval_codes _) fun v => ?_
    have rest := Expr.allCompute spell es _ (stack.push v) short.2 placed.right (by simp; omega)
    refine rest.map (Expr.evalAll_within Store.addsObjects_codes _ es).store (v :: ·) fun vs => ?_
    simp
end

end StackScript
