import StackScript.Proofs.Expressions.Evaluator
import StackScript.Proofs.Statements.Syntax

/-!
# The meaning of statements

An interpreter on trees. A scope is a new table below the one at hand, and names are declared and
stored in the table of their scope. `continue` goes on behind the body of the innermost loop and
`break` behind that loop. A loop takes at most a number of passes; whether it took all of them is
known from how the statement ended.

Main statement: `Stmt.exec_within`. Executing a statement leaves code units and the parents of
tables alone.
-/
namespace StackScript

/-! ## Names and values -/

/-- A new table for the names of a block. -/
def openTable (outer : TableRef) : StoreM TableRef := fun s =>
  let (r, s) := s.newChild outer "block"
  (.ok r, s)

/-- Store a value under a name, which is declared first if it is new. -/
def bindName (table : TableRef) (isNew : Bool) (name : String) (v : Value) : StoreM Unit := do
  if name = "_" then pure ()
  else
    if isNew then table.create name
    table.set name (← v.unchanged)

/-- Give a name its value. -/
def Assignment.exec (σ : Setting) (a : Assignment) : StoreM Unit := do
  let v ← a.value.eval σ
  bindName σ.table a.isNew (σ.spell a.name) v

/-- Give a name its value, if there is an assignment. -/
def execIfAny (σ : Setting) : Option Assignment → StoreM Unit
  | some a => a.exec σ
  | none => pure ()

/-- Whether a condition holds. -/
def Expr.holds (σ : Setting) (test : Expr) : StoreM Bool := do
  let v ← test.eval σ
  pure (← v.unchanged).isTruthy

/-- Whether a condition holds, if there is one. -/
def holdsIfAny (σ : Setting) : Option Expr → StoreM Bool
  | some test => test.holds σ
  | none => pure true

/-- Print values on a line, with blanks between them. -/
def printLine (σ : Setting) (es : List Expr) : WorldM Unit := do
  let vs ← (do allUnchanged (← Expr.evalAll σ es) : StoreM (List Value))
  let s ← getThe Store
  World.write (Text.join " " (vs.map (·.display s)))
  World.write "\n"

/-! ## Statements -/

/-- How a statement comes to its end. -/
inductive Ending where
  | done
  /-- At `break` or `continue`. -/
  | leaves (isBreak : Bool)
  /-- A loop has taken as many passes as it was allowed. -/
  | unfinished

/-- Make passes until one is the last. -/
def passes (pass : WorldM (Option Ending)) : (bound : Nat) → WorldM Ending
  | 0 => pure .unfinished
  | bound + 1 => do
    match ← pass with
    | some e => pure e
    | none => passes pass bound

/-- What a pass comes to whose body has ended. -/
def afterBody (σ : Setting) (post : Option Assignment) : Ending → WorldM (Option Ending)
  | .done | .leaves false => do
    execIfAny σ post
    pure none
  | .leaves true => pure (some .done)
  | .unfinished => pure (some .unfinished)

/-- One pass of a loop; none if another one follows. -/
def onePass (σ : Setting) (test : Option Expr) (post : Option Assignment) (body : WorldM Ending) :
    WorldM (Option Ending) := do
  if ← holdsIfAny σ test then afterBody σ post (← body)
  else pure (some .done)

/-- Execute a statement, with so many passes for each loop. -/
def Stmt.exec (σ : Setting) (bound : Nat) : Stmt → WorldM Ending
  | .nothing => pure .done
  | .next _ first rest => do
    match ← first.exec σ bound with
    | .done => rest.exec σ bound
    | e => pure e
  | .assign a => do
    a.exec σ
    pure .done
  | .print es => do
    printLine σ es
    pure .done
  | .inScope start body => do
    let table ← openTable σ.table
    execIfAny { σ with table := table } start
    body.exec { σ with table := table } bound
  | .branch test yes no => do
    if ← test.holds σ then yes.exec σ bound else no.exec σ bound
  | .cycle test post body => passes (onePass σ test post (body.exec σ bound)) bound
  | .leave isBreak => pure (.leaves isBreak)

/-! ## The store -/

/-- A store with the same code units and, as far as there were tables, the same parents. -/
structure Store.Extends (s s' : Store) : Prop where
  codes : s'.codes = s.codes
  parents : ∀ {r p : TableRef}, (s.table r).parent = some p → (s'.table r).parent = some p

namespace Store.Extends

theorem refl (s : Store) : s.Extends s := ⟨rfl, fun h => h⟩

theorem trans {a b c : Store} (h : a.Extends b) (k : b.Extends c) : a.Extends c :=
  ⟨k.codes.trans h.codes, fun parent => k.parents (h.parents parent)⟩

theorem addsObjects : Store.AddsObjects Store.Extends where
  refl := refl
  trans := trans
  array _ _ := ⟨rfl, fun h => h⟩
  struct _ _ := ⟨rfl, fun h => h⟩
  map _ _ := ⟨rfl, fun h => h⟩
  waitGroup _ := ⟨rfl, fun h => h⟩
  mutex _ := ⟨rfl, fun h => h⟩

theorem modifyTable (s : Store) (r : TableRef) {f : Table → Table}
    (same : ∀ t, (f t).parent = t.parent) : s.Extends (s.modifyTable r f) := by
  refine ⟨rfl, fun {q p} parent => ?_⟩
  rw [← parent]
  by_cases inside : q.index < s.tables.size
  · simp only [Store.table, Store.modifyTable, Array.getD_eq_getD_getElem?, Array.getElem?_modify]
    split
    · simp [inside, same]
    · rfl
  · simp [Store.table, Store.modifyTable, Array.getD_eq_getD_getElem?, inside]

theorem newChild (s : Store) (r : TableRef) (name : String) : s.Extends (s.newChild r name).2 := by
  refine ⟨rfl, fun {q p} parent => ?_⟩
  by_cases inside : q.index < s.tables.size
  · rw [← parent]
    simp [Store.table, Store.newChild, Store.newBelow, Store.newTable,
      Array.getD_eq_getD_getElem?, Array.getElem?_push, inside, Nat.ne_of_lt inside]
  · simp [Store.table, Array.getD_eq_getD_getElem?, inside] at parent

end Store.Extends

open StoreM (Within)

theorem openTable_within (r : TableRef) : Within Store.Extends (openTable r) :=
  .of_ok (fun s => .newChild s r "block") fun _ => ⟨_, rfl⟩

theorem modifyTable_within (r : TableRef) (f : Table → Table)
    (same : ∀ t, (f t).parent = t.parent) :
    Within Store.Extends (modify fun s => s.modifyTable r f : StoreM Unit) :=
  .of_ok (fun s => .modifyTable s r same) fun _ => ⟨_, rfl⟩

theorem TableRef.create_within (r : TableRef) (name : String) :
    Within Store.Extends (r.create name) := by
  have h := Store.Extends.addsObjects
  exact .bind h (.get h) fun s => .ite (.throw h rfl) (modifyTable_within r _ fun _ => rfl)

theorem TableRef.set_within (r : TableRef) (name : String) (v : Value) :
    Within Store.Extends (r.set name v) := by
  have h := Store.Extends.addsObjects
  refine .bind h (.get h) fun s => ?_
  split
  · exact .throw h rfl
  · refine .bind h (.get h) fun s => ?_
    split
    · exact .throw h rfl
    · refine .ite (.throw h rfl) ?_
      have bound (v : Value) := modifyTable_within ‹TableRef›
        (fun t => t.bind name { ‹Binding› with value := v, bound := true }) fun _ => rfl
      split
      · exact .bind h (Value.copy_within h v) fun v => bound v
      · exact .bind h (.pure h v) fun v => bound v

theorem bindName_within (table : TableRef) (isNew : Bool) (name : String) (v : Value) :
    Within Store.Extends (bindName table isNew name v) := by
  have h := Store.Extends.addsObjects
  refine .ite (.pure h _) ?_
  have stores : Within Store.Extends (do table.set name (← v.unchanged)) :=
    .bind h (Value.unchanged_within h v) fun v => table.set_within name v
  cases isNew with
  | true => exact .bind h (table.create_within name) fun _ => stores
  | false => exact stores

theorem Assignment.exec_within (σ : Setting) (a : Assignment) :
    Within Store.Extends (a.exec σ) := by
  have h := Store.Extends.addsObjects
  exact .bind h (a.value.eval_within h σ) fun v => bindName_within _ _ _ v

theorem execIfAny_within (σ : Setting) (a : Option Assignment) :
    Within Store.Extends (execIfAny σ a) := by
  cases a with
  | some a => exact a.exec_within σ
  | none => exact .pure Store.Extends.addsObjects _

theorem Expr.holds_within (σ : Setting) (test : Expr) : Within Store.Extends (test.holds σ) := by
  have h := Store.Extends.addsObjects
  exact .bind h (test.eval_within h σ) fun v => .bind h (Value.unchanged_within h v) fun _ =>
    .pure h _

theorem holdsIfAny_within (σ : Setting) (test : Option Expr) :
    Within Store.Extends (holdsIfAny σ test) := by
  cases test with
  | some test => exact test.holds_within σ
  | none => exact .pure Store.Extends.addsObjects _

/-! ## The world and the store -/

namespace WorldM

variable {α β : Type}

theorem bind_of_ok {m : WorldM α} {f : α → WorldM β} {a : α} {w w' : World} {s s' : Store}
    (h : m w s = ((.ok a, w'), s')) : (m >>= f) w s = f a w' s' := by
  simp only [Bind.bind, ExceptT.bind, ExceptT.mk, StateT.bind, h]
  rfl

theorem bind_of_error {m : WorldM α} {f : α → WorldM β} {e : Fault} {w w' : World} {s s' : Store}
    (h : m w s = ((.error e, w'), s')) : (m >>= f) w s = ((.error e, w'), s') := by
  simp only [Bind.bind, ExceptT.bind, ExceptT.mk, StateT.bind, h]
  rfl

theorem bind_ok {m : WorldM α} {f : α → WorldM β} {w w' : World} {s s' : Store} {b : β}
    (h : (m >>= f) w s = ((.ok b, w'), s')) :
    ∃ a w₁ s₁, m w s = ((.ok a, w₁), s₁) ∧ f a w₁ s₁ = ((.ok b, w'), s') := by
  simp only [Bind.bind, ExceptT.bind, ExceptT.mk, StateT.bind] at h
  rcases hm : m w s with ⟨⟨r, w₁⟩, s₁⟩
  rw [hm] at h
  cases r with
  | error f => cases h
  | ok a => exact ⟨a, w₁, s₁, rfl, h⟩

/-- What a computation on the store does in the world. -/
theorem lift_of {m : StoreM α} {x : Except Fault α} {w : World} {s s' : Store} (h : m s = (x, s')) :
    (m : WorldM α) w s = ((x, w), s') := by
  have : (m : WorldM α) w s = (((m s).1, w), (m s).2) := rfl
  rw [this, h]

/-- A computation extends the store, whether it fails or not, and no fault of it controls the
run. -/
def Extends (m : WorldM α) : Prop :=
  ∀ w s, s.Extends (m w s).2 ∧ ∀ f, (m w s).1.1 = .error f → f.kind.isControl = false

namespace Extends

theorem of_ok {m : WorldM α} (h : ∀ w (s : Store), s.Extends (m w s).2)
    (ok : ∀ w s, ∃ a, (m w s).1.1 = .ok a) : Extends m := by
  refine fun w s => ⟨h w s, fun f failed => ?_⟩
  obtain ⟨a, ha⟩ := ok w s
  rw [ha] at failed
  cases failed

theorem pure (a : α) : Extends (Pure.pure a : WorldM α) :=
  .of_ok (fun _ s => .refl s) fun _ _ => ⟨a, rfl⟩

theorem lift {m : StoreM α} (h : Within Store.Extends m) : Extends (m : WorldM α) :=
  fun _ s => h s

theorem bind {m : WorldM α} {f : α → WorldM β} (hm : Extends m) (hf : ∀ a, Extends (f a)) :
    Extends (m >>= f) := by
  intro w s
  have first := hm w s
  simp only [Bind.bind, ExceptT.bind, ExceptT.mk, StateT.bind]
  rcases hr : m w s with ⟨⟨r, w'⟩, s'⟩
  rw [hr] at first
  cases r with
  | error f => exact ⟨first.1, fun f' failed => first.2 f' (by cases failed; rfl)⟩
  | ok a => exact ⟨first.1.trans (hf a w' s').1, (hf a w' s').2⟩

theorem write (text : String) : Extends (World.write text) :=
  .of_ok (fun _ s => .refl s) fun _ _ => ⟨_, rfl⟩

end Extends

end WorldM

open WorldM (Extends)

theorem printLine_within (σ : Setting) (es : List Expr) : Extends (printLine σ es) := by
  have h := Store.Extends.addsObjects
  have values : Within Store.Extends (do allUnchanged (← Expr.evalAll σ es)) :=
    .bind h (Expr.evalAll_within h σ es) fun _ => .ite (.throw h rfl) (.pure h _)
  refine .bind (.lift values) fun vs => .bind (.of_ok (fun _ s => .refl s) fun _ s => ⟨s, rfl⟩) ?_
  exact fun s => .bind (.write _) fun _ => .write _

theorem passes_within {pass : WorldM (Option Ending)} (h : Extends pass) (bound : Nat) :
    Extends (passes pass bound) := by
  induction bound with
  | zero => exact .pure _
  | succ bound ih =>
    refine .bind h fun e => ?_
    cases e with
    | some e => exact .pure _
    | none => exact ih

theorem afterBody_within (σ : Setting) (post : Option Assignment) (e : Ending) :
    Extends (afterBody σ post e) := by
  have goesOn : Extends (do execIfAny σ post; pure none : WorldM (Option Ending)) :=
    .bind (.lift (execIfAny_within σ post)) fun _ => .pure _
  cases e with
  | done => exact goesOn
  | leaves isBreak =>
    cases isBreak with
    | true => exact .pure _
    | false => exact goesOn
  | unfinished => exact .pure _

theorem onePass_within (σ : Setting) (test : Option Expr) (post : Option Assignment)
    {body : WorldM Ending} (h : Extends body) : Extends (onePass σ test post body) := by
  refine .bind (.lift (holdsIfAny_within σ test)) fun holds => ?_
  cases holds with
  | true => exact .bind h fun e => afterBody_within σ post e
  | false => exact .pure _

/-- Executing a statement leaves code units and the parents of tables alone. -/
theorem Stmt.exec_within (s : Stmt) (σ : Setting) (bound : Nat) : Extends (s.exec σ bound) := by
  induction s generalizing σ with
  | nothing | leave => exact .pure _
  | next line first rest ihFirst ihRest =>
    refine .bind (ihFirst σ) fun e => ?_
    cases e with
    | done => exact ihRest σ
    | _ => exact .pure _
  | assign a => exact .bind (.lift (a.exec_within σ)) fun _ => .pure _
  | print es => exact .bind (printLine_within σ es) fun _ => .pure _
  | inScope start body ih =>
    refine .bind (.lift (openTable_within σ.table)) fun table => ?_
    exact .bind (.lift (execIfAny_within _ start)) fun _ => ih _
  | branch test yes no ihYes ihNo =>
    refine .bind (.lift (test.holds_within σ)) fun holds => ?_
    cases holds with
    | true => exact ihYes σ
    | false => exact ihNo σ
  | cycle test post body ih => exact passes_within (onePass_within σ test post (ih σ)) bound

end StackScript
