import Mathlib.Tactic.ByContra
import StackScript.Proofs.Stateful
import StackScript.Proofs.Sparing
import StackScript.Machine.Flow

/-!
# What keeps constants

A binding that is locked is kept by all that stores, declares and defines names, for these refuse
it. Left out are the root, where a builtin binds names whatever they are, and names that are not
among those to be kept: the machine itself binds one to a caught fault. A judgement says so of
computations on the world and of those of a context, and with it that functions are launched only.

Main statements: `TableRef.set_holds`, `TableRef.setConstant_holds` and `Holding.bind`.
-/
namespace StackScript

open StoreM (Sparing)

/-- A table's own name has a binding that stores are refused for. -/
structure Store.Locks (s : Store) (r : TableRef) (name : String) (b : Binding) : Prop where
  found : (s.table r).binding? name = some b
  locked : b.locked = true

/-- Units are only added, tables stay below their parents, and the locked bindings of names to be
kept stay as they are in every table but one. -/
structure Store.Holds (kept : String → Prop) (root : TableRef) (s s' : Store) : Prop where
  grows : s.Grows s'
  parents {r p : TableRef} : (s.table r).parent = some p → (s'.table r).parent = some p
  locks {r : TableRef} {name : String} {b : Binding} : r ≠ root → kept name → s.Locks r name b →
    s'.Locks r name b

/-- A name of a table that may be bound anew. -/
def Store.Free (kept : String → Prop) (root : TableRef) (s : Store) (r : TableRef)
    (name : String) : Prop :=
  r = root ∨ ¬kept name ∨ ∀ b, ¬s.Locks r name b

/-! ## Tables -/

theorem Table.binding?_bind_self (t : Table) (name : String) (b : Binding) :
    (t.bind name b).binding? name = some b := Association.find?_insert_self ..

theorem Table.binding?_bind_of_ne (t : Table) {name other : String} (h : other ≠ name)
    (b : Binding) : (t.bind name b).binding? other = t.binding? other :=
  Association.find?_insert_of_ne h ..

namespace Store

variable (s : Store) {r t : TableRef}

theorem table_modifyTable_of_ne (h : r ≠ t) (f : Table → Table) :
    (s.modifyTable t f).table r = s.table r := by
  have apart : t.index ≠ r.index := fun same => h (by cases r; cases t; exact congrArg _ same.symm)
  simp [table, modifyTable, Array.getD_eq_getD_getElem?, Array.getElem?_modify, apart]

theorem table_modifyTable_self (there : r.index < s.tables.size) (f : Table → Table) :
    (s.modifyTable r f).table r = f (s.table r) := by
  simp [table, modifyTable, Array.getD_eq_getD_getElem?, Array.getElem_modify, there]

/-- A table that was never added is below none. -/
theorem inside_of_parent {s : Store} {p : TableRef} (below : (s.table r).parent = some p) :
    r.index < s.tables.size := by
  by_contra outside
  have none : (s.table r).parent = none := by
    simp only [table, Array.getD_eq_getD_getElem?, getElem?_neg s.tables r.index outside]
    rfl
  cases none.symm.trans below

/-- A change of a table that keeps parents keeps the parents of all tables. -/
theorem parent_modifyTable {f : Table → Table} (same : ∀ table, (f table).parent = table.parent) :
    ((s.modifyTable t f).table r).parent = (s.table r).parent := by
  by_cases own : r = t
  · subst own
    by_cases there : r.index < s.tables.size
    · rw [s.table_modifyTable_self there, same]
    · simp [table, modifyTable, Array.getD_eq_getD_getElem?, there]
  · rw [s.table_modifyTable_of_ne own]

/-- A table that was never added has no names. -/
theorem inside_of_found {s : Store} {name : String} {b : Binding}
    (found : (s.table r).binding? name = some b) : r.index < s.tables.size := by
  by_contra outside
  have none : (s.table r).binding? name = none := by
    simp [table, Array.getD_eq_getD_getElem?, outside, Table.binding?]
    rfl
  cases none.symm.trans found

end Store

namespace Store.Free

variable {kept : String → Prop} {root r : TableRef} {s : Store} {name : String}

theorem of_found {b : Binding} (found : (s.table r).binding? name = some b)
    (unlocked : b.locked = false) : Free kept root s r name := by
  refine .inr (.inr fun b' locks => ?_)
  have same : b = b' := Option.some.inj (found.symm.trans locks.found)
  exact absurd locks.locked (by simp [← same, unlocked])

theorem of_missing (missing : (s.table r).binding? name = none) : Free kept root s r name :=
  .inr (.inr fun _ locks => absurd (missing.symm.trans locks.found) nofun)

end Store.Free

namespace Store.Holds

variable {kept : String → Prop} {root t : TableRef} {s s' s'' : Store} {name : String}

/-- All is kept where the tables that are there stay. -/
theorem of_older (grows : s.Grows s')
    (same : ∀ r : TableRef, r.index < s.tables.size → s'.table r = s.table r) :
    s.Holds kept root s' := by
  refine ⟨grows, fun {r _} below => ?_, fun {r _ _} _ _ locks => ⟨?_, locks.locked⟩⟩
  · rw [same r (inside_of_parent below)]
    exact below
  · rw [same r (inside_of_found locks.found)]
    exact locks.found

theorem of_tables (grows : s.Grows s') (tables : s'.tables = s.tables) : s.Holds kept root s' :=
  .of_older grows fun r _ => by simp [table, tables]

theorem of_spares (h : s.Spares s') : s.Holds kept root s' :=
  .of_older (.of_codes h.codes) fun _ => h.table

theorem of_unkept (grows : s.Grows s')
    (parents : ∀ r : TableRef, (s'.table r).parent = (s.table r).parent)
    (unkept : ∀ name, ¬kept name) : s.Holds kept root s' :=
  ⟨grows, fun below => (parents _).trans below, fun _ wanted => absurd wanted (unkept _)⟩

theorem refl (s : Store) : s.Holds kept root s := .of_spares (.refl s)

theorem newCode (s : Store) (code : Code) : s.Holds kept root (s.newCode code).2 :=
  .of_tables (.newCode code) rfl

theorem trans (first : s.Holds kept root s') (second : s'.Holds kept root s'') :
    s.Holds kept root s'' :=
  ⟨first.grows.trans second.grows, fun below => second.parents (first.parents below),
    fun below wanted locks => second.locks below wanted (first.locks below wanted locks)⟩

/-- A free name of a table may be changed as long as the others stay. -/
theorem changing {f : Table → Table} (free : s.Free kept root t name)
    (parent : ∀ table, (f table).parent = table.parent)
    (others : ∀ table : Table, ∀ {other}, other ≠ name →
      (f table).binding? other = table.binding? other) :
    s.Holds kept root (s.modifyTable t f) := by
  refine ⟨.of_codes rfl, fun below => (s.parent_modifyTable parent).trans below,
    fun {r other b} below wanted locks => ⟨?_, locks.locked⟩⟩
  by_cases same : r = t
  · subst same
    have apart : other ≠ name := by
      rintro rfl
      obtain rfl | unwanted | unlocked := free
      · exact below rfl
      · exact unwanted wanted
      · exact unlocked b locks
    rw [s.table_modifyTable_self (inside_of_found locks.found), others _ apart]
    exact locks.found
  · rw [s.table_modifyTable_of_ne same]
    exact locks.found

theorem bind (free : s.Free kept root t name) (b : Binding) :
    s.Holds kept root (s.modifyTable t fun table => table.bind name b) :=
  .changing free (fun _ => rfl) fun table _ apart => table.binding?_bind_of_ne apart b

theorem setAlways (free : s.Free kept root t name) (v : Value) :
    s.Holds kept root (t.setAlways name v s) := by
  refine .changing free (fun table => ?_) fun table other apart => ?_
  · split <;> rfl
  · split <;> exact table.binding?_bind_of_ne apart _

end Store.Holds

/-- What goes on after a computation that spares names finds them as they were. -/
theorem StoreM.Sparing.bind_holds {kept : String → Prop} {root : TableRef} {α β : Type}
    {m : StoreM α} {f : α → StoreM β} {s : Store} (hm : Sparing m)
    (hf : ∀ a s', s.Spares s' → s'.Holds kept root (f a s').2) :
    s.Holds kept root ((m >>= f) s).2 := by
  have spares := (hm s).1
  rcases ran : m s with ⟨result, s'⟩
  rw [ran] at spares
  cases result with
  | error e =>
    rw [StoreM.bind_of_error ran]
    exact .of_spares spares
  | ok a =>
    rw [StoreM.bind_of_ok ran]
    exact (Store.Holds.of_spares spares).trans (hf a s' spares)

/-! ## What is done to names -/

namespace TableRef

variable {kept : String → Prop} {root : TableRef} (r : TableRef) (name : String) (v : Value)
  (s : Store)

theorem set_holds : s.Holds kept root (r.set name v s).2 := by
  unfold set
  rw [StoreM.bind_of_ok (StoreM.get_eq s)]
  cases r.find? s name false with
  | none => exact .refl s
  | some t =>
    dsimp only
    rw [StoreM.bind_of_ok (StoreM.get_eq s)]
    cases found : (s.table t).binding? name with
    | none => exact .refl s
    | some b =>
      have stores (s' : Store) (spares : s.Spares s') (unlocked : b.locked = false) (v : Value) :
          s'.Holds kept root (s'.modifyTable t fun table =>
            table.bind name { b with value := v, bound := true }) := by
        have there : (s'.table t).binding? name = some b :=
          (spares.table (Store.inside_of_found found)) ▸ found
        exact .bind (.of_found there unlocked) _
      dsimp only
      split
      · exact .refl s
      · rename_i unlocked
        rw [Bool.not_eq_true] at unlocked
        split
        · exact Sparing.bind_holds (.copy v) fun v s' spares => stores s' spares unlocked v
        · exact stores s (.refl s) unlocked v

theorem create_holds : s.Holds kept root (r.create name s).2 := by
  unfold create
  rw [StoreM.bind_of_ok (StoreM.get_eq s)]
  split
  · exact .refl s
  · rename_i free
    refine .bind (.of_missing ?_) _
    simpa [Table.binds, Table.binding?, ← Association.find?_isSome] using free

theorem setConstant_holds : s.Holds kept root (r.setConstant name v s).2 := by
  unfold setConstant
  rw [StoreM.bind_of_ok (StoreM.get_eq s)]
  split
  · exact .refl s
  · rename_i unbound
    refine .bind (.inr (.inr fun b locks => unbound ?_)) _
    have bound : b.bound = true := by
      have := locks.locked
      simp only [Binding.locked, Bool.and_eq_true] at this
      exact this.1
    simp [locks.found, bound]

/-- The name of a constant has a locked binding from then on. -/
theorem setConstant_locks {r : TableRef} (there : r.index < s.tables.size) {s' : Store}
    (done : r.setConstant name v s = (.ok (), s')) :
    s'.Locks r name { value := v, readonly := true, constant := true } := by
  unfold setConstant at done
  rw [StoreM.bind_of_ok (StoreM.get_eq s)] at done
  split at done
  · cases done
  · cases done
    refine ⟨?_, rfl⟩
    rw [s.table_modifyTable_self there]
    exact Table.binding?_bind_self _ _ _

end TableRef

/-! ## Computations that keep constants -/

/-- The root and the clock stay, and functions are launched only, each of which counts. -/
structure World.Launches (w w' : World) : Prop where
  root : w'.root = w.root
  clock : w'.clock = w.clock
  more : ∃ ls, w'.launched = w.launched ++ ls ∧ w'.active = w.active + ls.length

namespace World.Launches

variable {w w' w'' : World}

theorem of_same (root : w'.root = w.root) (clock : w'.clock = w.clock)
    (launched : w'.launched = w.launched) (active : w'.active = w.active) : w.Launches w' :=
  ⟨root, clock, [], by simp [launched], by simp [active]⟩

theorem refl (w : World) : w.Launches w := .of_same rfl rfl rfl rfl

theorem trans (first : w.Launches w') (second : w'.Launches w'') : w.Launches w'' := by
  obtain ⟨root, clock, ls, launched, active⟩ := first
  obtain ⟨root', clock', ls', launched', active'⟩ := second
  refine ⟨root'.trans root, clock'.trans clock, ls ++ ls', by simp [launched', launched], ?_⟩
  rw [active', active, List.length_append, Int.natCast_add, Int.add_assoc]

theorem launching (w : World) (l : Launch) : w.Launches (w.launching l) := by
  unfold World.launching
  cases next : counted? w.active 1 with
  | none => exact .refl w
  | some count =>
    refine ⟨rfl, rfl, [l], rfl, ?_⟩
    unfold counted? at next
    split at next <;> cases next
    rfl

end World.Launches

/-- Computations on a state with a world. -/
class Worldly (M : Type → Type) [Monad M] [MonadExceptOf Fault M] [Stateful M] where
  world : Stateful.State M → World

instance : Worldly WorldM where
  world s := s.1

instance : Worldly Exec where
  world s := s.2.1

section
variable {M : Type → Type} [Monad M] [MonadExceptOf Fault M] [Stateful M] [Worldly M] {α β : Type}
  {kept : String → Prop}

/-- A computation that keeps the locked bindings of a state, whether it fails or not. -/
def HoldsAt (kept : String → Prop) (m : M α) (s : Stateful.State M) : Prop :=
  (Worldly.world s).Launches (Worldly.world (Stateful.run m s).2) ∧
    (Stateful.store s).Holds kept (Worldly.world s).root (Stateful.store (Stateful.run m s).2)

/-- A computation that keeps every locked binding. -/
def Holding (kept : String → Prop) (m : M α) : Prop := ∀ s : Stateful.State M, HoldsAt kept m s

theorem HoldsAt.bind {m : M α} {f : α → M β} {s : Stateful.State M} (hm : HoldsAt kept m s)
    (hf : ∀ a, (Stateful.run m s).1 = .ok a → HoldsAt kept (f a) (Stateful.run m s).2) :
    HoldsAt kept (m >>= f) s := by
  obtain ⟨launches, holds⟩ := hm
  rw [HoldsAt, Stateful.run_bind]
  rcases ran : Stateful.run m s with ⟨result, s'⟩
  rw [ran] at launches holds hf
  cases result with
  | error e => exact ⟨launches, holds⟩
  | ok a =>
    obtain ⟨launches', holds'⟩ := hf a rfl
    exact ⟨launches.trans launches', holds.trans (launches.root ▸ holds')⟩

namespace Holding

theorem pure (a : α) : Holding kept (Pure.pure a : M α) := by
  intro s
  rw [HoldsAt, Stateful.run_pure]
  exact ⟨.refl _, .refl _⟩

theorem throw (f : Fault) : Holding kept (MonadExcept.throw f : M α) := by
  intro s
  rw [HoldsAt, Stateful.run_throw]
  exact ⟨.refl _, .refl _⟩

theorem bind {m : M α} {f : α → M β} (hm : Holding kept m) (hf : ∀ a, Holding kept (f a)) :
    Holding kept (m >>= f) := fun s => (hm s).bind fun a _ => hf a _

theorem map [LawfulMonad M] {m : M α} (hm : Holding kept m) (f : α → β) :
    Holding kept (f <$> m) := by
  rw [map_eq_pure_bind]
  exact hm.bind fun a => pure (f a)

theorem ite {p : Prop} [Decidable p] {yes no : M α} (hyes : Holding kept yes)
    (hno : Holding kept no) : Holding kept (if p then yes else no) := by
  split
  · exact hyes
  · exact hno

theorem listMapM [LawfulMonad M] {f : α → M β} (hf : ∀ a, Holding kept (f a)) (items : List α) :
    Holding kept (items.mapM f) := by
  induction items with
  | nil => exact pure []
  | cons a rest ih =>
    rw [List.mapM_cons]
    exact (hf a).bind fun b => ih.bind fun bs => pure (b :: bs)

end Holding

end

namespace WorldM

variable {α : Type} {kept : String → Prop}

theorem holding_of_store {m : StoreM α}
    (h : ∀ (root : TableRef) (s : Store), s.Holds kept root (m s).2) : Holding kept (liftM m : WorldM α) :=
  fun (w, s) => ⟨.refl w, h w.root s⟩

theorem holding_of_sparing {m : StoreM α} (h : Sparing m) : Holding kept (liftM m : WorldM α) :=
  holding_of_store fun _ s => .of_spares (h.store s)

theorem getStore_holding : Holding kept (getThe Store : WorldM Store) :=
  fun (w, s) => ⟨.refl w, .refl s⟩

theorem getWorld_holding : Holding kept (getThe World : WorldM World) :=
  fun (w, s) => ⟨.refl w, .refl s⟩

/-- The world may change as long as functions are launched only. -/
theorem changing_holding {m : WorldM α} (launches : ∀ w s, World.Launches w (m w s).1.2)
    (store : ∀ w s, (m w s).2 = s) : Holding kept m :=
  fun (w, s) => ⟨launches w s, by
    change s.Holds kept w.root (m w s).2
    rw [store]
    exact .refl s⟩

theorem write_holding (text : String) : Holding kept (World.write text) :=
  changing_holding (fun _ _ => .of_same rfl rfl rfl rfl) fun _ _ => rfl

end WorldM

namespace Exec

variable {α : Type} {kept : String → Prop}

theorem holding_of_store {m : StoreM α}
    (h : ∀ (root : TableRef) (s : Store), s.Holds kept root (m s).2) : Holding kept (liftM m : Exec α) :=
  fun (_, w, s) => ⟨.refl w, h w.root s⟩

theorem holding_of_sparing {m : StoreM α} (h : Sparing m) : Holding kept (liftM m : Exec α) :=
  holding_of_store fun _ s => .of_spares (h.store s)

theorem holding_of_world {m : WorldM α} (h : Holding kept m) : Holding kept (liftM m : Exec α) :=
  fun (_, w, s) => h (w, s)

/-- The context may change in all. -/
theorem holding_of_context {m : Exec α} (still : ∀ c w s, ((m c w s).1.2, (m c w s).2) = (w, s)) :
    Holding kept m := by
  rintro ⟨c, w, s⟩
  obtain ⟨world, store⟩ := Prod.mk.inj (still c w s)
  refine ⟨?_, ?_⟩
  · change w.Launches (m c w s).1.2
    rw [world]
    exact .refl w
  · change s.Holds kept w.root (m c w s).2
    rw [store]
    exact .refl s

end Exec

end StackScript
