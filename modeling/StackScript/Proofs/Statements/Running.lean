import StackScript.Proofs.Expressions.Moving
import StackScript.Proofs.Statements.Interpreter
import StackScript.Machine.Thread
import StackScript.Proofs.Statements.Syntax

/-!
# Executing computations and running code

A context `Executes` a computation from a spot, an address with a table of names, when its steps have
the effect of the computation and fail as it fails; a predicate on its value, the number of steps
and the spot that they lead to says where it ends. Between statements the stack is as before.

Main statements: `Executes.bind`, `Executes.passes` (a loop, which takes a step for each pass at least) and
`leaveScopes_below` (leaving scopes leads to the tables that they were opened in).
-/
namespace StackScript

/-- A context at an address and a line, with a table of names. -/
def Context.spot (c : Context) (pc : Nat) (r : TableRef) (line : Nat) : Context :=
  { c with pc := pc, scope := r, line := line }

/-- Running from an address and a table has the effect of `m` in stores of which `P` holds. -/
def Executes {α : Type} (c : Context) (P : Store → Prop) (pc : Nat) (r : TableRef) (m : WorldM α)
    (ends : α → (count pc : Nat) → TableRef → Prop) : Prop :=
  ∀ line w s, P s → match m w s with
    | ((.ok a, w'), s') => ∃ n pc' r' line', ends a n pc' r' ∧
      Steps n ⟨c.spot pc r line, w, s⟩ ⟨c.spot pc' r' line', w', s'⟩
    | ((.error f, w'), s') => ∃ n b, Fails n ⟨c.spot pc r line, w, s⟩ f ⟨b, w', s'⟩ ∧
      b.tries = c.tries ∧ b.moduleName = c.moduleName

/-- A property of stores that extensions of the store keep. -/
def Lasting (P : Store → Prop) : Prop := ∀ {s s' : Store}, s.Extends s' → P s → P s'

namespace Executes

variable {α β : Type} {c : Context} {P : Store → Prop} {pc pc' : Nat} {r r' : TableRef}
variable {ends : α → Nat → Nat → TableRef → Prop} {ends' : β → Nat → Nat → TableRef → Prop}

theorem mono {m : WorldM α} {ends' : α → Nat → Nat → TableRef → Prop} (h : Executes c P pc r m ends)
    (le : ∀ a n pc r, ends a n pc r → ends' a n pc r) : Executes c P pc r m ends' := by
  intro line w s good
  have runs := h line w s good
  rcases hm : m w s with ⟨⟨x, w'⟩, s'⟩
  rw [hm] at runs
  cases x with
  | error f => exact runs
  | ok a =>
    obtain ⟨n, pc', r', line', arrives, steps⟩ := runs
    exact ⟨n, pc', r', line', le _ _ _ _ arrives, steps⟩

theorem pure (a : α) (h : ends a 0 pc r) : Executes c P pc r (Pure.pure a : WorldM α) ends :=
  fun line _ _ _ => ⟨0, pc, r, line, h, .refl⟩

/-- Computations one after the other; `Q` holds of the stores that the first one leads to. -/
theorem bind {m : WorldM α} {f : α → WorldM β} {Q : α → Store → Prop} (hm : Executes c P pc r m ends)
    (leads : ∀ w s, P s → ∀ a, (m w s).1.1 = .ok a → Q a (m w s).2)
    (hf : ∀ a n pc' r', ends a n pc' r' →
      Executes c (Q a) pc' r' (f a) fun b k pc r => ends' b (n + k) pc r) :
    Executes c P pc r (m >>= f) ends' := by
  intro line w s good
  have first := hm line w s good
  have led := leads w s good
  simp only [Bind.bind, ExceptT.bind, ExceptT.mk, StateT.bind]
  rcases hr : m w s with ⟨⟨x, w'⟩, s'⟩
  rw [hr] at first led
  cases x with
  | error f => exact first
  | ok a =>
    obtain ⟨n, pc', r', line', arrives, steps⟩ := first
    have second := hf a n pc' r' arrives line' w' s' (led a rfl)
    simp only [ExceptT.bindCont]
    rcases hg : f a w' s' with ⟨⟨y, w''⟩, s''⟩
    rw [hg] at second
    cases y with
    | error f =>
      obtain ⟨k, b, fails, same⟩ := second
      exact ⟨n + k, b, .trans steps fails, same⟩
    | ok b =>
      obtain ⟨k, pc'', r'', line'', arrives', steps'⟩ := second
      exact ⟨n + k, pc'', r'', line'', arrives', steps.trans steps'⟩

/-- Computations one after the other, when what holds of the store is lasting. -/
theorem andThen {m : WorldM α} {f : α → WorldM β} (hm : Executes c P pc r m ends) (lasting : Lasting P)
    (extends' : WorldM.Extends m)
    (hf : ∀ a n pc' r', ends a n pc' r' →
      Executes c P pc' r' (f a) fun b k pc r => ends' b (n + k) pc r) :
    Executes c P pc r (m >>= f) ends' :=
  hm.bind (fun w s good _ _ => lasting (extends' w s).1 good) hf

/-- Steps that change nothing but the spot come first. -/
theorem after {m : WorldM α} {count : Nat}
    (steps : ∀ line w s, P s → ∃ line', Steps count ⟨c.spot pc r line, w, s⟩
      ⟨c.spot pc' r' line', w, s⟩)
    (hm : Executes c P pc' r' m fun a n pc r => ends a (count + n) pc r) : Executes c P pc r m ends := by
  intro line w s good
  obtain ⟨line', first⟩ := steps line w s good
  have runs := hm line' w s good
  rcases h : m w s with ⟨⟨x, w'⟩, s'⟩
  rw [h] at runs
  cases x with
  | error f =>
    obtain ⟨n, b, fails, same⟩ := runs
    exact ⟨count + n, b, .trans first fails, same⟩
  | ok a =>
    obtain ⟨n, pc', r', line', arrives, steps⟩ := runs
    exact ⟨count + n, pc', r', line', arrives, first.trans steps⟩

/-- What the instructions compute on the store, they compute in the world. -/
theorem lift {code : Code} {m : StoreM α}
    (h : ∀ line w, Computes (c.spot pc r line) w code pc pc' c.stack m fun _ => c.stack)
    (placed : ∀ s, P s → s.code c.code = code) (arrives : ∀ a n, ends a n pc' r) :
    Executes c P pc r (m : WorldM α) ends := by
  intro line w s good
  have computes := h line w s (placed s good)
  have lifted : (m : WorldM α) w s = (((m s).1, w), (m s).2) := rfl
  rw [lifted]
  rcases hm : m s with ⟨x, s'⟩
  rw [hm] at computes
  cases x with
  | ok a =>
    obtain ⟨n, steps⟩ := computes
    exact ⟨n, pc', r, line, arrives a n, steps⟩
  | error f =>
    obtain ⟨n, pc₁, left, fails⟩ := computes
    exact ⟨n, _, fails, rfl, rfl⟩

/-- A loop whose passes come back to its start, each of them by a step at least. -/
theorem passes {pass : WorldM (Option Ending)} {ends : Ending → Nat → Nat → TableRef → Prop}
    {most : Nat} (lasting : Lasting P) (extends' : WorldM.Extends pass)
    (h : ∀ before, Executes c P pc r pass fun o n pc' r' =>
      (o = none → 0 < n ∧ pc' = pc ∧ r' = r) ∧ ∀ e, o = some e → ends e (before + n) pc' r')
    (spent : ∀ n pc' r', most ≤ n → ends .unfinished n pc' r') {bound before : Nat}
    (enough : most ≤ before + bound) :
    Executes c P pc r (StackScript.passes pass bound) fun e n pc' r' => ends e (before + n) pc' r' := by
  induction bound generalizing before with
  | zero => exact .pure _ (spent _ _ _ enough)
  | succ bound ih =>
    refine (h before).andThen lasting extends' fun o n pc' r' arrives => ?_
    cases o with
    | some e => exact .pure _ (arrives.2 e rfl)
    | none =>
      obtain ⟨some, rfl, rfl⟩ := arrives.1 rfl
      have rest := @ih (before + n) (by omega)
      simpa only [Nat.add_assoc] using rest

end Executes

/-! ## Leaving scopes -/

/-- A table lies so many tables below another one. -/
def Below (s : Store) : (depth : Nat) → TableRef → TableRef → Prop
  | 0, r, outer => r = outer
  | depth + 1, r, outer => ∃ p, (s.table r).parent = some p ∧ Below s depth p outer

theorem Below.extends {s s' : Store} (h : s.Extends s') {depth : Nat} {r outer : TableRef}
    (below : Below s depth r outer) : Below s' depth r outer := by
  induction depth generalizing r with
  | zero => exact below
  | succ depth ih =>
    obtain ⟨p, parent, rest⟩ := below
    exact ⟨p, h.parents parent, ih rest⟩

theorem openTable_below (s : Store) (r : TableRef) :
    ((s.newChild r "block").2.table (s.newChild r "block").1).parent = some r := by
  simp [Store.newChild, Store.newBelow, Store.newTable, Store.table]

namespace Exec

theorem leaveScopes_below {c : Context} {w : World} {s : Store} {depth : Nat} {outer : TableRef}
    (below : Below s depth c.scope outer) :
    leaveScopes depth c w s = (((.ok (), { c with scope := outer }), w), s) := by
  induction depth generalizing c with
  | zero =>
    cases below
    rfl
  | succ depth ih =>
    obtain ⟨p, parent, rest⟩ := below
    have here : scope c w s = (((.ok c.scope, c), w), s) := rfl
    have table : ofStore (·.table c.scope) c w s = (((.ok (s.table c.scope), c), w), s) := rfl
    refine (bind_of_ok here).trans ((bind_of_ok table).trans ?_)
    rw [parent]
    have moves : modifyContext (fun c => { c with scope := p }) c w s =
        (((.ok (), { c with scope := p }), w), s) := rfl
    exact (bind_of_ok moves).trans (@ih { c with scope := p } rest)

theorem closeScopes_below {c : Context} {w : World} {s : Store} {depth : Nat} {outer : TableRef}
    (some : 0 < depth) (few : depth < countLimit) (below : Below s depth c.scope outer) :
    closeScopes (.int (Int64.ofNat depth)) c w s =
      (((.ok (), { c with scope := outer }), w), s) := by
  have count : countOf (.int (Int64.ofNat depth)) 1 = depth := by
    simp only [countOf, Operand.asInt?, Int64.toInt_ofNat_of_lt (Nat.lt_of_lt_of_eq few rfl),
      Int.toNat_natCast]
  rw [closeScopes, count, Nat.max_eq_left some]
  exact leaveScopes_below below

end Exec

/-!
## Running the code of statements

The sealed code of a statement runs as the interpreter executes the statement. Addresses are those
before sealing: an instruction that is reached is kept, and so are the instruction behind it and
the target of its branch.

Main statement: `Stmt.executes`.
-/

open Exec (Does)

/-! ## Instructions on names -/

namespace Exec.Does

variable {c : Context} {w : World} {stack : Array Value}

theorem createName {name : String} (named : name ≠ "_") (stack : Array Value) :
    Does c w (Exec.createName (.name name)) stack (c.scope.create name) (fun _ => stack)
      fun _ => () := by
  refine .first (of_ok name fun _ _ => rfl) ?_
  rw [if_neg (show name ≠ Exec.blank from named)]
  exact .first (.ofContext Context.scope (fun _ _ => rfl) stack) (.lift _ stack)

theorem storeName (name : String) (high : c.base ≤ stack.size) (v : Value) :
    Does c w (Exec.storeName (.name name)) (stack.push v) (do c.scope.set name (← v.unchanged))
      (fun _ => stack) fun _ => () := by
  refine .first (of_ok name fun _ _ => rfl) (.bind (.popValue high v) fun v => ?_)
  exact .first (.ofContext Context.scope (fun _ _ => rfl) stack) (.lift _ stack)

end Exec.Does

section

variable {c : Context} {w : World} {code : Code} {stack : Array Value} {start : Nat}

theorem storeCode_movable (isNew : Bool) (name : String) : Movable fun _ => storeCode isNew name :=
  .plain (storeCode_plain isNew name)

/-- The top of the stack is bound to a name. -/
theorem storeCode_computes {isNew : Bool} {name : String}
    (placed : Placed code start (storeCode isNew name)) (high : c.base ≤ stack.size) (v : Value) :
    Computes c w code start (start + (storeCode isNew name).length) (stack.push v)
      (bindName c.scope isNew name v) fun _ => stack := by
  unfold storeCode bindName at *
  by_cases blank : name = "_"
  · simp only [blank, if_true] at placed ⊢
    exact .instruction placed.head (by simp) (.drop high v)
  · simp only [blank, if_false] at placed ⊢
    cases isNew with
    | false => exact .instruction placed.head (by simp) (.storeName name high v)
    | true =>
      have creates : Computes c w code _ _ _ _ _ :=
        .instruction placed.head (by simp) (.createName blank (stack.push v))
      exact creates.bind (fun s => ((c.scope.create_within name).store s).codes) fun _ =>
        .instruction placed.tail.head (by simp) (.storeName name high v)

end

/-! ## Output -/

/-- A world in which a text was printed. -/
def World.printed (w : World) (text : String) : World := { w with output := w.output ++ text }

namespace Exec

variable {c : Context} {w : World} {s : Store} {stack : Array Value} {vs : List Value}
variable (high : c.base ≤ stack.size) (few : vs.length < countLimit)

include few

theorem countOf_length : countOf (.int (Int64.ofNat vs.length)) 1 = vs.length := by
  simp only [countOf, Operand.asInt?, Int64.toInt_ofNat_of_lt (Nat.lt_of_lt_of_eq few rfl),
    Int.toNat_natCast]

include high

theorem print_ok (proper : vs.any Value.isMarker = false) (pc : Nat) :
    print (.int (Int64.ofNat vs.length)) (c.at pc (stack ++ vs.toArray)) w s =
      (((.ok (), c.at pc stack), w.printed (Text.join " " (vs.map (·.display s)))), s) := by
  have popped := Does.popValues (w := w) high vs pc s
  have same : allUnchanged vs = pure vs := by simp [allUnchanged, proper]
  rw [same] at popped
  rw [print, countOf_length few]
  exact bind_of_ok popped

theorem print_error (marked : vs.any Value.isMarker = true) (pc : Nat) :
    ∃ left, print (.int (Int64.ofNat vs.length)) (c.at pc (stack ++ vs.toArray)) w s =
      (((.error (.of .voidReturn), c.at pc left), w), s) := by
  have popped := Does.popValues (w := w) high vs pc s
  have failed : allUnchanged vs = throw (.of .voidReturn) := by simp [allUnchanged, marked]
  rw [failed] at popped
  obtain ⟨left, popped⟩ := popped
  rw [print, countOf_length few]
  exact ⟨left, bind_of_error popped⟩

end Exec

/-! ## Stretches of sealed code -/

namespace Trimming

variable {code trimmed : Code} {move : Nat → Nat} {kept : Nat → Prop}
variable (trims : Trimming code trimmed move kept) {α : Type} {c : Context} {w : World} {start : Nat}
variable {stack : Array Value} {spell : String → String}

include trims

/-- Addresses that are kept lie within the sealed code. -/
theorem within {a : Nat} (live : kept a) (le : a ≤ code.size) : move a ≤ trimmed.size := by
  rcases Nat.lt_or_eq_of_le le with inside | rfl
  · have found := trims.found live (Array.getElem?_eq_getElem (show a < code.instructions.size from inside))
    exact Nat.le_of_lt (Array.getElem?_eq_some_iff.1 found).1
  · exact Nat.le_of_eq trims.last

/-- A plain instruction is kept as it is, and the one behind it is kept. -/
theorem plainAt {i : Instruction} (found : code.instructions[start]? = some i) (live : kept start)
    (goesOn : i.op.isTransfer = false) (noBranch : i.op.isBranch = false) :
    trimmed.instructions[move start]? = some i ∧ kept (start + 1) ∧
      move (start + 1) = move start + 1 := by
  have next := trims.next live found goesOn
  refine ⟨?_, next, trims.adjacent live next⟩
  rw [trims.found live found, Instruction.retarget_plain noBranch]

theorem does {i : Instruction} {m : StoreM α} {rest : α → Array Value}
    (found : code.instructions[start]? = some i) (live : kept start)
    (goesOn : i.op.isTransfer = false) (noBranch : i.op.isBranch = false) (noCall : i.op ≠ .call)
    (h : Does c w (Exec.perform i) stack m rest fun _ => ()) :
    kept (start + 1) ∧ Computes c w trimmed (move start) (move (start + 1)) stack m rest := by
  obtain ⟨here, next, adjacent⟩ := trims.plainAt found live goesOn noBranch
  rw [adjacent]
  exact ⟨next, .instruction here noCall h⟩

/-- A branch is kept with its target. -/
theorem branchAt {taken : Bool} {target : Nat}
    (found : code.instructions[start]? = some (branchOn taken target)) (live : kept start) :
    trimmed.instructions[move start]? = some (branchOn taken (move target)) ∧ kept (start + 1) ∧
      move (start + 1) = move start + 1 ∧ kept target := by
  have next := trims.next live found (branchOn_goesOn _ _)
  refine ⟨?_, next, trims.adjacent live next, trims.target live found (branchOn_target _ _)⟩
  rw [trims.found live found, branchOn_retarget]

/-- An expression is computed from where its code went to. -/
theorem evaluates {e : Expr} (placed : Placed code start (e.code spell start)) (live : kept start)
    (short : e.Short) (high : c.base ≤ stack.size) :
    kept (start + (e.code spell start).length) ∧
      Computes c w trimmed (move start) (move (start + (e.code spell start).length)) stack
        (e.eval (c.setting spell)) stack.push := by
  have movable := e.movable spell
  obtain ⟨next, there⟩ := movable.behind trims placed live
  rw [there]
  exact ⟨next, e.computes spell (move start) stack short (movable.placed_sealed trims placed live) high⟩

theorem evaluatesAll {es : List Expr} (placed : Placed code start (Expr.itemsCode spell start es))
    (live : kept start) (short : Expr.ShortAll es) (high : c.base ≤ stack.size) :
    kept (start + (Expr.itemsCode spell start es).length) ∧
      Computes c w trimmed (move start) (move (start + (Expr.itemsCode spell start es).length))
        stack (Expr.evalAll (c.setting spell) es) fun vs => stack ++ vs.toArray := by
  have movable := Expr.itemsCode_movable spell es
  obtain ⟨next, there⟩ := movable.behind trims placed live
  rw [there]
  have moved := movable.placed_sealed trims placed live
  exact ⟨next, Expr.allCompute spell es (move start) stack short moved high⟩

theorem bindsName {isNew : Bool} {name : String}
    (placed : Placed code start (storeCode isNew name)) (live : kept start)
    (high : c.base ≤ stack.size) (v : Value) :
    kept (start + (storeCode isNew name).length) ∧
      Computes c w trimmed (move start) (move (start + (storeCode isNew name).length))
        (stack.push v) (bindName c.scope isNew name v) fun _ => stack := by
  have movable := storeCode_movable isNew name
  obtain ⟨next, there⟩ := movable.behind trims placed live
  rw [there]
  exact ⟨next, storeCode_computes (movable.placed_sealed trims placed live) high v⟩

/-- An assignment is executed by its code. -/
theorem assigns {a : Assignment} (placed : Placed code start (a.code spell start))
    (live : kept start) (short : a.value.Short) (high : c.base ≤ stack.size) :
    kept (start + (a.code spell start).length) ∧
      Computes c w trimmed (move start) (move (start + (a.code spell start).length)) stack
        (a.exec (c.setting spell)) fun _ => stack := by
  have value := trims.evaluates (c := c) (w := w) placed.left live short high
  have stores (v : Value) := trims.bindsName (c := c) (w := w) placed.right value.1 high v
  rw [Assignment.code, List.length_append, ← Nat.add_assoc]
  refine ⟨(stores .nil).1, value.2.bind (a.value.eval_codes _) fun v => (stores v).2⟩

theorem assignsIfAny {a : Option Assignment} (placed : Placed code start (codeIfAny spell start a))
    (live : kept start) (short : ∀ b ∈ a, b.value.Short) (high : c.base ≤ stack.size) :
    kept (start + (codeIfAny spell start a).length) ∧
      Computes c w trimmed (move start) (move (start + (codeIfAny spell start a).length)) stack
        (execIfAny (c.setting spell) a) fun _ => stack := by
  cases a with
  | some a => exact trims.assigns placed live (short a rfl) high
  | none => exact ⟨live, .refl () rfl⟩

end Trimming

/-! ## Statements -/

section

variable {code trimmed : Code} {move : Nat → Nat} {kept : Nat → Prop}
variable (trims : Trimming code trimmed move kept) {c : Context} (high : c.base ≤ c.stack.size)
variable {P : Store → Prop} (lasting : Lasting P) (placedIn : ∀ s, P s → s.code c.code = trimmed)
variable {spell : String → String} {start : Nat} {r : TableRef}

include trims placedIn

/-- What a plain instruction that changes nothing but the spot comes before. -/
theorem Trimming.onward {α : Type} {m : WorldM α} {ends : α → Nat → Nat → TableRef → Prop}
    {i : Instruction} {r' : TableRef} (found : code.instructions[start]? = some i)
    (live : kept start) (goesOn : i.op.isTransfer = false) (noBranch : i.op.isBranch = false)
    (noCall : i.op ≠ .call)
    (performs : ∀ line w s, P s → ∃ line', Exec.perform i (c.spot (move start + 1) r line) w s =
      (((.ok (), c.spot (move start + 1) r' line'), w), s))
    (hm : kept (start + 1) → Executes c P (move (start + 1)) r' m fun a n => ends a (1 + n)) :
    Executes c P (move start) r m ends := by
  obtain ⟨here, next, adjacent⟩ := trims.plainAt found live goesOn noBranch
  refine .after (fun line w s good => ?_) (hm next)
  obtain ⟨line', done⟩ := performs line w s good
  rw [← placedIn s good] at here
  rw [adjacent]
  exact ⟨line', .one (Exec.step_ok here noCall done)⟩

/-- What a jump leads to, at where its target went. -/
theorem Trimming.jumps {α : Type} {m : WorldM α} {ends : α → Nat → Nat → TableRef → Prop}
    {target : Nat} (found : code.instructions[start]? = some ⟨.branch, .address target⟩)
    (live : kept start) (le : target ≤ code.size)
    (hm : kept target → Executes c P (move target) r m fun a n => ends a (1 + n)) :
    Executes c P (move start) r m ends := by
  have next := trims.target live found rfl
  have here : trimmed.instructions[move start]? = some ⟨.branch, .address (move target)⟩ :=
    trims.found live found
  refine .after (fun line w s good => ⟨line, ?_⟩) (hm next)
  have placed := placedIn s good
  rw [← placed] at here
  refine .one (Exec.step_ok here (by simp) ?_)
  exact Exec.bind_of_ok (Computes.addressOf_at (c := c.spot 0 r line) (trims.within next le)
    placed _ c.stack)

/-- A spot is at where an address went. -/
def Stands (move : Nat → Nat) (kept : Nat → Prop) (a : Nat) (r : TableRef) (pc : Nat)
    (r' : TableRef) : Prop :=
  pc = move a ∧ kept a ∧ r' = r

include high

/-- A condition goes on behind its branch when it holds, and else where the branch leads to. -/
theorem Trimming.tests {test : Expr} {exit : Nat}
    (placed : Placed code start (test.code spell start ++ [branchOn false exit]))
    (live : kept start) (short : test.Short) (le : exit ≤ code.size) :
    Executes c P (move start) r (test.holds ⟨c.strictness, r, spell⟩ : WorldM Bool) fun b _ =>
      Stands move kept (bif b then start + (test.code spell start).length + 1 else exit) r := by
  intro line w s good
  let σ : Setting := ⟨c.strictness, r, spell⟩
  have here := placedIn s good
  obtain ⟨last, computes⟩ := trims.evaluates (c := c.spot 0 r line) (w := w) placed.left live
    short high
  have value := computes s here
  obtain ⟨found, next, adjacent, out⟩ := trims.branchAt placed.right.head last
  have lifted : (test.holds σ : WorldM Bool) w s = (((test.holds σ s).1, w), (test.holds σ s).2) :=
    rfl
  have codes := test.eval_codes σ s
  have setting : (c.spot 0 r line).setting spell = σ := rfl
  rw [setting] at value
  rw [lifted]
  rcases h : test.eval σ s with ⟨x, s'⟩
  rw [h] at value codes
  cases x with
  | error f =>
    have failed : test.holds σ s = (.error f, s') := StoreM.bind_of_error h
    obtain ⟨n, pc, left, fails⟩ := value
    rw [failed]
    exact ⟨n, _, fails, rfl, rfl⟩
  | ok v =>
    obtain ⟨n, steps⟩ := value
    have placed' : s'.code c.code = trimmed := by
      rw [← here, Store.code, Store.code, codes]
    have held : test.holds σ s = (do pure (← v.unchanged).isTruthy : StoreM Bool) s' :=
      StoreM.bind_of_ok h
    rw [held]
    cases marked : v.isMarker with
    | true =>
      have failed : v.unchanged = throw (.of .voidReturn) := by simp [Value.unchanged, marked]
      obtain ⟨left, fails⟩ := Computes.branchOn_fails (c := c.spot 0 r line) (w := w) high placed'
        found (trims.within out le) marked
      rw [failed]
      exact ⟨n, _, ⟨_, steps, fails⟩, rfl, rfl⟩
    | false =>
      have same : v.unchanged = pure v := by simp [Value.unchanged, marked]
      have goes := Computes.branchOn_goes (c := c.spot 0 r line) (w := w) high placed' found
        (trims.within out le) marked
      rw [same, pure_bind]
      refine ⟨n + 1, _, r, line, ?_, steps.trans (.one goes)⟩
      cases v.isTruthy with
      | true => exact ⟨adjacent.symm, next, rfl⟩
      | false => exact ⟨rfl, out, rfl⟩

theorem Trimming.testsIfAny {test : Option Expr} {exit : Nat}
    (placed : Placed code start (testCode spell start exit test)) (live : kept start)
    (short : ∀ e ∈ test, e.Short) (le : exit ≤ code.size) :
    Executes c P (move start) r (holdsIfAny ⟨c.strictness, r, spell⟩ test : WorldM Bool) fun b _ =>
      Stands move kept (bif b then start + (testCode spell start exit test).length else exit) r := by
  cases test with
  | some test =>
    simp only [testCode, List.length_append, List.length_singleton, ← Nat.add_assoc]
    exact trims.tests high placedIn placed live (short test rfl) le
  | none => exact .pure true ⟨rfl, live, rfl⟩

/-- Values are printed by the instructions behind those that compute them. -/
theorem Trimming.prints {es : List Expr} (placed : Placed code start (printCode spell start es))
    (live : kept start) (short : Expr.ShortAll es) (few : es.length < countLimit) :
    Executes c P (move start) r (printLine ⟨c.strictness, r, spell⟩ es) fun _ _ =>
      Stands move kept (start + (printCode spell start es).length) r := by
  intro line w s good
  let σ : Setting := ⟨c.strictness, r, spell⟩
  have here := placedIn s good
  obtain ⟨behind, computes⟩ := trims.evaluatesAll (c := c.spot 0 r line) (w := w) placed.left live
    short high
  have values := computes s here
  have setting : (c.spot 0 r line).setting spell = σ := rfl
  rw [setting] at values
  obtain ⟨print, next, adjacent⟩ := trims.plainAt placed.right.head behind rfl rfl
  obtain ⟨newline, last, adjacent'⟩ := trims.plainAt placed.right.tail.head next rfl rfl
  have within := (Expr.evalAll_within Store.Extends.addsObjects σ es).store s
  rcases h : Expr.evalAll σ es s with ⟨x, s'⟩
  rw [h] at values within
  cases x with
  | error f =>
    have failed : printLine σ es w s = ((.error f, w), s') :=
      WorldM.bind_of_error (WorldM.lift_of (StoreM.bind_of_error h))
    obtain ⟨n, pc, left, fails⟩ := values
    rw [failed]
    exact ⟨n, _, fails, rfl, rfl⟩
  | ok vs =>
    obtain ⟨n, steps⟩ := values
    have here' : s'.code c.code = trimmed := by rw [← here, Store.code, Store.code, within.codes]
    rw [← here'] at print newline
    have length := Expr.evalAll_length es h
    rw [← length] at print few
    have taken : (do allUnchanged (← Expr.evalAll σ es) : StoreM (List Value)) s =
        allUnchanged vs s' := StoreM.bind_of_ok h
    cases marked : vs.any Value.isMarker with
    | true =>
      have failed : allUnchanged vs = throw (.of .voidReturn) := by simp [allUnchanged, marked]
      have ends : printLine σ es w s = ((.error (.of .voidReturn), w), s') :=
        WorldM.bind_of_error (WorldM.lift_of (taken.trans (congrFun failed s')))
      obtain ⟨left, printed⟩ := Exec.print_error (c := c.spot 0 r line) (w := w) (s := s') high few
        marked (move (start + (Expr.itemsCode spell start es).length) + 1)
      rw [ends]
      exact ⟨n, _, ⟨_, steps, Exec.step_error print (by simp) printed⟩, rfl, rfl⟩
    | false =>
      have same : allUnchanged vs = pure vs := by simp [allUnchanged, marked]
      let w' := w.printed (Text.join " " (vs.map (·.display s')))
      have ends : printLine σ es w s = ((.ok (), w'.printed "\n"), s') :=
        WorldM.bind_of_ok (WorldM.lift_of (taken.trans (congrFun same s')))
      have printed := Exec.print_ok (c := c.spot 0 r line) (w := w) (s := s') high few marked
        (move (start + (Expr.itemsCode spell start es).length) + 1)
      have first : Steps 1 ⟨(c.spot 0 r line).at (move (start +
          (Expr.itemsCode spell start es).length)) (c.stack ++ vs.toArray), w, s'⟩ ⟨_, w', s'⟩ :=
        .one (Exec.step_ok print (by simp) printed)
      rw [← adjacent] at first
      have second : Steps 1 ⟨c.spot (move (start + (Expr.itemsCode spell start es).length + 1)) r line,
          w', s'⟩ ⟨_, w'.printed "\n", s'⟩ := .one (Exec.step_ok newline (by simp) rfl)
      have stop : start + (printCode spell start es).length =
          start + (Expr.itemsCode spell start es).length + 1 + 1 := by
        simp [printCode, Nat.add_assoc]
      rw [ends, stop]
      exact ⟨n + (1 + 1), _, r, line, ⟨adjacent'.symm, last, rfl⟩,
        steps.trans (first.trans second)⟩

end

end StackScript
