import StackScript.Proofs.Stateful
import StackScript.Proofs.Addresses.Relocation

/-!
# Computations that see no addresses

A computation is blind if a relocation commutes with it: on what a state moves to it does what it
does to the state, and its result moves along. The rules are stated once for the three monads over
the store.

Main statements: `Blind.bind` and the lifts between the three monads.
-/
namespace StackScript

/-! ## Relocated states -/

/-- Computations on a state that a relocation moves. -/
class Relocatable (M : Type → Type) [Monad M] [MonadExceptOf Fault M] [Stateful M] where
  moved : Stateful.State M → Stateful.State M

instance [Relocation] : Relocatable StoreM where
  moved := Store.moved

instance [Relocation] : Relocatable WorldM where
  moved s := (s.1.moved, s.2.moved)

instance [Relocation] : Relocatable Exec where
  moved s := (s.1.moved, s.2.1.moved, s.2.2.moved)

/-! ## Blindness -/

section
variable {M : Type → Type} [Monad M] [MonadExceptOf Fault M] [Stateful M] [Relocatable M]
  {α α' β β' : Type}

/-- `m'` does to what a state moves to what `m` does to the state, and the result moves by `f`; no
unit is added or changed. -/
abbrev BlindAt (f : α → α') (m : M α) (m' : M α') (s : Stateful.State M) : Prop :=
  Stateful.run m' (Relocatable.moved s) =
      ((Stateful.run m s).1.map f, Relocatable.moved (Stateful.run m s).2) ∧
    (Stateful.store (Stateful.run m s).2).codes = (Stateful.store s).codes

/-- `m'` does to what any state moves to what `m` does to the state. -/
def Blind (f : α → α') (m : M α) (m' : M α') : Prop := ∀ s : Stateful.State M, BlindAt f m m' s

theorem BlindAt.bind {f : α → α'} {g : β → β'} {m : M α} {m' : M α'} {k : α → M β} {k' : α' → M β'}
    {s : Stateful.State M} (hm : BlindAt f m m' s)
    (hk : ∀ a, BlindAt g (k a) (k' (f a)) (Stateful.run m s).2) :
    BlindAt g (m >>= k) (m' >>= k') s := by
  rw [BlindAt, Stateful.run_bind, Stateful.run_bind, hm.1]
  have codes := hm.2
  rcases hr : Stateful.run m s with ⟨r, s'⟩
  rw [hr] at codes hk
  cases r with
  | error e => exact ⟨rfl, codes⟩
  | ok a => exact ⟨(hk a).1, (hk a).2.trans codes⟩

namespace Blind

theorem pure (f : α → α') (a : α) : Blind f (Pure.pure a : M α) (Pure.pure (f a)) := by
  intro s
  rw [BlindAt, Stateful.run_pure, Stateful.run_pure]
  exact ⟨rfl, rfl⟩

theorem pure_eq {f : α → α'} {a : α} {a' : α'} (h : a' = f a) :
    Blind f (Pure.pure a : M α) (Pure.pure a') := h ▸ pure f a

theorem throw (f : α → α') (e : Fault) : Blind f (MonadExcept.throw e : M α) (MonadExcept.throw e) := by
  intro s
  rw [BlindAt, Stateful.run_throw, Stateful.run_throw]
  exact ⟨rfl, rfl⟩

theorem throw_eq {f : α → α'} {e e' : Fault} (h : e' = e) :
    Blind f (MonadExcept.throw e : M α) (MonadExcept.throw e') := by
  rw [h]
  exact throw f e

theorem bind {f : α → α'} {g : β → β'} {m : M α} {m' : M α'} {k : α → M β} {k' : α' → M β'}
    (hm : Blind f m m') (hk : ∀ a, Blind g (k a) (k' (f a))) : Blind g (m >>= k) (m' >>= k') :=
  fun s => (hm s).bind fun a => hk a _

theorem map [LawfulMonad M] {f : α → α'} {m : M α} {m' : M α'} (hm : Blind f m m') {g : α → β}
    {g' : α' → β'} {h : β → β'} (same : ∀ a, g' (f a) = h (g a)) : Blind h (g <$> m) (g' <$> m') := by
  rw [map_eq_pure_bind, map_eq_pure_bind]
  refine hm.bind fun a => ?_
  rw [same]
  exact pure h (g a)

theorem ite {f : α → α'} {p : Prop} [Decidable p] {yes no : M α} {yes' no' : M α'}
    (hyes : Blind f yes yes') (hno : Blind f no no') :
    Blind f (if p then yes else no) (if p then yes' else no') := by
  split
  · exact hyes
  · exact hno

theorem listMapM [LawfulMonad M] {f : α → α'} {g : β → β'} {k : α → M β} {k' : α' → M β'}
    (hk : ∀ a, Blind g (k a) (k' (f a))) (items : List α) :
    Blind (List.map g) (items.mapM k) ((items.map f).mapM k') := by
  induction items with
  | nil => exact pure (List.map g) []
  | cons a rest ih =>
    rw [List.map_cons, List.mapM_cons, List.mapM_cons]
    exact (hk a).bind fun b => ih.bind fun bs => pure (List.map g) (b :: bs)

theorem arrayMapM [LawfulMonad M] {f : α → α'} {g : β → β'} {k : α → M β} {k' : α' → M β'}
    (hk : ∀ a, Blind g (k a) (k' (f a))) (items : Array α) :
    Blind (Array.map g) (items.mapM k) ((items.map f).mapM k') := by
  rw [Array.mapM_eq_mapM_toList, Array.mapM_eq_mapM_toList, Array.toList_map]
  exact (listMapM hk items.toList).map fun bs => by simp

theorem foldlM {f : α → α'} {g : β → β'} {k : β → α → M β} {k' : β' → α' → M β'}
    (hk : ∀ b a, Blind g (k b a) (k' (g b) (f a))) (items : List α) (start : β) :
    Blind g (items.foldlM k start) ((items.map f).foldlM k' (g start)) := by
  induction items generalizing start with
  | nil => exact pure g start
  | cons a rest ih =>
    rw [List.map_cons, List.foldlM_cons, List.foldlM_cons]
    exact (hk start a).bind ih

end Blind

end

variable [Relocation]

/-! ## The store -/

namespace StoreM

variable {α α' : Type}

theorem get_blind : Blind Store.moved (get : StoreM Store) get := fun _ => ⟨rfl, rfl⟩

theorem read_blind {f : α → α'} {read : Store → α} {read' : Store → α'}
    (h : ∀ s, read' s.moved = f (read s)) :
    @Blind StoreM _ _ _ _ α α' f (fun s => (Except.ok (read s), s))
      (fun s => (Except.ok (read' s), s)) := by
  refine fun s => ⟨?_, rfl⟩
  exact congrArg (fun a => (Except.ok a, s.moved)) (h s)

theorem modify_blind {f f' : Store → Store} (h : ∀ s, f' s.moved = (f s).moved)
    (codes : ∀ s, (f s).codes = s.codes) : Blind id (modify f : StoreM Unit) (modify f') := by
  intro s
  refine ⟨?_, codes s⟩
  change (Except.ok (), f' s.moved) = (Except.ok (), (f s).moved)
  rw [h]

/-- A failure is handled by what sees no addresses either. -/
theorem tryCatch_blind {f : α → α'} {m : StoreM α} {m' : StoreM α'} {k : Fault → StoreM α}
    {k' : Fault → StoreM α'} (hm : Blind f m m') (hk : ∀ e, Blind f (k e) (k' e)) :
    Blind f (tryCatch m k) (tryCatch m' k') := by
  intro s
  obtain ⟨same, codes⟩ := hm s
  change (tryCatch m' k' : StoreM α') s.moved = _ ∧ _
  change m' s.moved = ((m s).1.map f, (m s).2.moved) at same
  change (m s).2.codes = s.codes at codes
  simp only [Stateful.run, Stateful.store, Relocatable.moved, tryCatch, tryCatchThe,
    MonadExceptOf.tryCatch, ExceptT.tryCatch, ExceptT.mk, Bind.bind, StateT.bind, same]
  rcases hr : m s with ⟨r, s'⟩
  rw [hr] at codes
  cases r with
  | error e => exact ⟨(hk e s').1, (hk e s').2.trans codes⟩
  | ok a => exact ⟨rfl, codes⟩

theorem array_blind (element : Ty) (items : Array Value) :
    Blind Value.moved (array element items) (array element (items.map Value.moved)) := by
  refine fun s => ⟨?_, rfl⟩
  exact congrArg (fun p => (Except.ok (Value.array p.1), p.2))
    (s.newArray_moved { element := element, items := items })

theorem emptyArray_blind (element : Ty) :
    Blind Value.moved (array element #[]) (array element #[]) := by
  simpa using array_blind element #[]

theorem struct_blind (o : StructObject) : Blind Value.moved (struct o) (struct o.moved) := by
  refine fun s => ⟨?_, rfl⟩
  exact congrArg (fun p => (Except.ok (Value.struct p.1), p.2)) (s.newStruct_moved o)

theorem map_blind (m : MapObject) : Blind Value.moved (map m) (map m.moved) := by
  refine fun s => ⟨?_, rfl⟩
  exact congrArg (fun p => (Except.ok (Value.map p.1), p.2)) (s.newMap_moved m)

theorem tuple_blind (items : List Value) :
    Blind Value.moved (tuple items) (tuple (items.map Value.moved)) := by
  refine fun s => ⟨?_, rfl⟩
  exact congrArg (fun p => (Except.ok (Value.tuple p.1), p.2)) (s.newTuple_moved items)

theorem channel_blind (element : Ty) (capacity : Nat) :
    Blind Value.moved (channel element capacity) (channel element capacity) := by
  refine fun s => ⟨?_, rfl⟩
  exact congrArg (fun p => (Except.ok (Value.channel p.1), p.2))
    (s.newChannel_moved { element := element, capacity := max capacity 1 })

theorem waitGroup_blind : Blind Value.moved waitGroup waitGroup := fun _ => ⟨rfl, rfl⟩

theorem mutex_blind : Blind Value.moved mutex mutex := fun _ => ⟨rfl, rfl⟩

end StoreM

/-! ## The world -/

namespace WorldM

variable {α α' : Type}

theorem ofStoreM {f : α → α'} {m : StoreM α} {m' : StoreM α'} (h : Blind f m m') :
    Blind f (liftM m : WorldM α) (liftM m') := by
  rintro ⟨w, s⟩
  obtain ⟨same, codes⟩ := h s
  exact ⟨congrArg (fun p => (p.1, w.moved, p.2)) same, codes⟩

theorem getStore : Blind Store.moved (getThe Store : WorldM Store) (getThe Store) :=
  fun _ => ⟨rfl, rfl⟩

theorem getWorld : Blind World.moved (getThe World : WorldM World) (getThe World) :=
  fun _ => ⟨rfl, rfl⟩

end WorldM

/-! ## Contexts -/

namespace Exec

variable {α α' : Type}

theorem ofStoreM {f : α → α'} {m : StoreM α} {m' : StoreM α'} (h : Blind f m m') :
    Blind f (liftM m : Exec α) (liftM m') := by
  rintro ⟨c, w, s⟩
  obtain ⟨same, codes⟩ := h s
  exact ⟨congrArg (fun p => (p.1, c.moved, w.moved, p.2)) same, codes⟩

theorem ofWorldM {f : α → α'} {m : WorldM α} {m' : WorldM α'} (h : Blind f m m') :
    Blind f (liftM m : Exec α) (liftM m') := by
  rintro ⟨c, w, s⟩
  obtain ⟨same, codes⟩ := h (w, s)
  exact ⟨congrArg (fun p => (p.1, c.moved, p.2)) same, codes⟩

theorem getStore_blind : Blind Store.moved (getThe Store : Exec Store) (getThe Store) :=
  fun _ => ⟨rfl, rfl⟩

theorem getWorld_blind : Blind World.moved (getThe World : Exec World) (getThe World) :=
  fun _ => ⟨rfl, rfl⟩

theorem ofContext_blind {f : α → α'} {read : Context → α} {read' : Context → α'}
    (h : ∀ c, read' c.moved = f (read c)) : Blind f (ofContext read) (ofContext read') := by
  rintro ⟨c, w, s⟩
  exact ⟨congrArg (fun a => (Except.ok a, c.moved, w.moved, s.moved)) (h c), rfl⟩

theorem ofStore_blind {f : α → α'} {read : Store → α} {read' : Store → α'}
    (h : ∀ s, read' s.moved = f (read s)) : Blind f (ofStore read) (ofStore read') := by
  rintro ⟨c, w, s⟩
  exact ⟨congrArg (fun a => (Except.ok a, c.moved, w.moved, s.moved)) (h s), rfl⟩

theorem modifyStore_blind {f f' : Store → Store} (h : ∀ s, f' s.moved = (f s).moved)
    (codes : ∀ s, (f s).codes = s.codes) : Blind id (modifyStore f) (modifyStore f') := by
  rintro ⟨c, w, s⟩
  exact ⟨congrArg (fun s => (Except.ok (), c.moved, w.moved, s)) (h s), codes s⟩

theorem modifyContext_blind {f f' : Context → Context} (h : ∀ c, f' c.moved = (f c).moved) :
    Blind id (modifyContext f) (modifyContext f') := by
  rintro ⟨c, w, s⟩
  exact ⟨congrArg (fun c => (Except.ok (), c, w.moved, s.moved)) (h c), rfl⟩

end Exec

end StackScript
