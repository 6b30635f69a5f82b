import Mathlib.Data.List.Infix
import StackScript.Value.Struct
import StackScript.Proofs.Faults
import StackScript.Proofs.Stateful

/-!
# Calm computations

An error that a program holds as a value can be raised again, so a signal of the debugger must not
get into a value. Nor must a struct that is not there, or a new struct could turn out to be known
already. A state is clear if there is neither in it. From a clear state a calm computation leads to
a clear one, and no fault of it is a signal; structs keep their parents but where it may link them,
and new structs have older parents; nor does it see where the debugger stops.

Main statements: `Calm.bind` and the rules for the computations on a store.
-/
namespace StackScript

/-! ## Values and objects -/

/-- A value that a program can get hold of: no marker and no group of results, no signal of the
debugger, and no struct but one of the first `n`. -/
def Value.Ordinary (n : Nat) : Value → Prop
  | .error f => f.Ordinary
  | .struct r => r.index < n
  | .marker _ | .tuple _ => False
  | _ => True

/-- An ordinary value, or a marker, which only a stack holds. -/
def Value.Stacked (n : Nat) (v : Value) : Prop := v.isMarker = true ∨ v.Ordinary n

/-- What a builtin may return: an ordinary value, or a group of results. -/
def Value.Returned (n : Nat) (v : Value) : Prop := v.Ordinary n ∨ ∃ r, v = .tuple r

/-- The value of an operand may lie on a stack. -/
def Operand.Ordinary (n : Nat) : Operand → Prop
  | .value v => v.Stacked n
  | _ => True

/-- Every item of the array is ordinary. -/
def ArrayObject.Clear (n : Nat) (a : ArrayObject) : Prop := ∀ v ∈ a.items, v.Ordinary n

/-- Every field of the struct is ordinary, and its parent is there. -/
structure StructObject.Clear (n : Nat) (o : StructObject) : Prop where
  fields : ∀ e ∈ o.fields, e.2.Ordinary n
  parent : ∀ p ∈ o.parent, p.index < n

/-- Every entry of the map is ordinary. -/
def MapObject.Clear (n : Nat) (m : MapObject) : Prop := ∀ e ∈ m.entries, e.2.Ordinary n

/-- Every message in the channel is ordinary. -/
def ChannelObject.Clear (n : Nat) (c : ChannelObject) : Prop := ∀ v ∈ c.buffer, v.Ordinary n

/-- Every operand of the unit is ordinary. -/
def Code.Clear (n : Nat) (c : Code) : Prop := ∀ i ∈ c.instructions, i.operand.Ordinary n

/-- Every name of the table is bound to an ordinary value. -/
def Table.Clear (n : Nat) (t : Table) : Prop := ∀ e ∈ t.bindings, e.2.value.Ordinary n

/-- There are `n` structs in the store, and every value in it is ordinary. -/
structure Store.Clear (n : Nat) (s : Store) : Prop where
  size : s.structs.size = n
  arrays : ∀ a ∈ s.arrays, a.Clear n
  structs : ∀ o ∈ s.structs, o.Clear n
  maps : ∀ m ∈ s.maps, m.Clear n
  tuples : ∀ t ∈ s.tuples, ∀ v ∈ t, v.Stacked n
  channels : ∀ c ∈ s.channels, c.Clear n
  codes : ∀ c ∈ s.codes, c.Clear n
  tables : ∀ t ∈ s.tables, t.Clear n

/-- A test that is passed for good: with more structs it still is. -/
def Upward {α : Type} (P : Nat → α → Prop) : Prop := ∀ ⦃n n' a⦄, P n a → n ≤ n' → P n' a

section

variable {n n' : Nat}

theorem Value.Ordinary.mono {v : Value} (h : v.Ordinary n) (le : n ≤ n') : v.Ordinary n' := by
  cases v with
  | struct r => exact Nat.lt_of_lt_of_le h le
  | _ => exact h

theorem Value.upward : Upward Value.Ordinary := fun _ _ _ => Value.Ordinary.mono

theorem Value.Stacked.mono {v : Value} (h : v.Stacked n) (le : n ≤ n') : v.Stacked n' :=
  h.imp_right (·.mono le)

theorem Value.Ordinary.stacked {v : Value} (h : v.Ordinary n) : v.Stacked n := .inr h

theorem Value.Stacked.ordinary {v : Value} (h : v.Stacked n) (some : v.isMarker ≠ true) :
    v.Ordinary n := h.resolve_left some

theorem Operand.Ordinary.mono {o : Operand} (h : o.Ordinary n) (le : n ≤ n') : o.Ordinary n' := by
  cases o with
  | value v => exact Value.Stacked.mono h le
  | _ => trivial

theorem ArrayObject.Clear.mono {a : ArrayObject} (h : a.Clear n) (le : n ≤ n') : a.Clear n' :=
  fun v mem => (h v mem).mono le

theorem StructObject.Clear.mono {o : StructObject} (h : o.Clear n) (le : n ≤ n') : o.Clear n' :=
  ⟨fun e mem => (h.fields e mem).mono le, fun p mem => Nat.lt_of_lt_of_le (h.parent p mem) le⟩

theorem MapObject.Clear.mono {m : MapObject} (h : m.Clear n) (le : n ≤ n') : m.Clear n' :=
  fun e mem => (h e mem).mono le

theorem ChannelObject.Clear.mono {c : ChannelObject} (h : c.Clear n) (le : n ≤ n') : c.Clear n' :=
  fun v mem => (h v mem).mono le

theorem Code.Clear.mono {c : Code} (h : c.Clear n) (le : n ≤ n') : c.Clear n' :=
  fun i mem => (h i mem).mono le

theorem Table.Clear.mono {t : Table} (h : t.Clear n) (le : n ≤ n') : t.Clear n' :=
  fun e mem => (h e mem).mono le

theorem StructObject.Clear.empty : ({} : StructObject).Clear n := ⟨List.forall_mem_nil _, nofun⟩

theorem MapKey.toValue_ordinary (t : Ty) (k : MapKey) : (k.toValue t).Ordinary n := by
  cases k with
  | int n =>
    simp only [toValue]
    split <;> trivial
  | _ => trivial

end

/-! ### Associations -/

namespace Association

variable {α β : Type} [BEq α] {P : β → Prop} {key : α} {entries : List (α × β)}

theorem forall_insert (h : ∀ e ∈ entries, P e.2) {v : β} (hv : P v) :
    ∀ e ∈ insert key v entries, P e.2 := by
  induction entries with
  | nil => simpa [insert] using hv
  | cons e rest ih =>
    rw [List.forall_mem_cons] at h
    unfold insert
    split
    · exact List.forall_mem_cons.2 ⟨hv, h.2⟩
    · exact List.forall_mem_cons.2 ⟨h.1, ih h.2⟩

theorem forall_erase (h : ∀ e ∈ entries, P e.2) : ∀ e ∈ erase key entries, P e.2 := by
  induction entries with
  | nil => exact h
  | cons e rest ih =>
    rw [List.forall_mem_cons] at h
    unfold erase
    split
    · exact h.2
    · exact List.forall_mem_cons.2 ⟨h.1, ih h.2⟩

theorem forall_find? (h : ∀ e ∈ entries, P e.2) : ∀ v ∈ find? key entries, P v := by
  induction entries with
  | nil => nofun
  | cons e rest ih =>
    rw [List.forall_mem_cons] at h
    intro v found
    unfold find? at found
    split at found
    · cases found
      exact h.1
    · exact ih h.2 v found

/-- Inserting entries one after the other. -/
theorem forall_foldl_insert {γ : Type} {more : List γ} {keyOf : γ → α} {valueOf : γ → β}
    (h : ∀ e ∈ entries, P e.2) (hmore : ∀ e ∈ more, P (valueOf e)) :
    ∀ e ∈ more.foldl (fun done e => insert (keyOf e) (valueOf e) done) entries, P e.2 := by
  induction more generalizing entries with
  | nil => exact h
  | cons e rest ih =>
    rw [List.forall_mem_cons] at hmore
    exact ih (forall_insert h hmore.1) hmore.2

theorem forall_ofList (h : ∀ e ∈ entries, P e.2) : ∀ e ∈ ofList entries, P e.2 :=
  forall_foldl_insert (List.forall_mem_nil _) h

end Association

/-! ### Reading and changing a store -/

theorem Array.forall_getD {α : Type} {P : α → Prop} {items : Array α} (h : ∀ a ∈ items, P a)
    {default : α} (hd : P default) (i : Nat) : P (items.getD i default) := by
  rw [Array.getD_eq_getD_getElem?]
  cases found : items[i]? with
  | none => exact hd
  | some a => exact h a (Array.mem_of_getElem? found)

theorem Array.forall_modify {α : Type} {P : α → Prop} {items : Array α} (h : ∀ a ∈ items, P a)
    {f : α → α} (hf : ∀ a, P a → P (f a)) (i : Nat) : ∀ a ∈ items.modify i f, P a := by
  intro a mem
  obtain ⟨j, inside, rfl⟩ := Array.mem_iff_getElem.1 mem
  have there : j < items.size := by simpa using inside
  rw [Array.getElem_modify]
  split
  · exact hf _ (h _ (Array.getElem_mem there))
  · exact h _ (Array.getElem_mem there)

theorem Array.forall_push {α : Type} {P : α → Prop} {items : Array α} (h : ∀ a ∈ items, P a) {a : α}
    (ha : P a) : ∀ b ∈ items.push a, P b := by
  intro b mem
  rcases Array.mem_push.1 mem with old | rfl
  · exact h b old
  · exact ha

theorem Array.forall_pop {α : Type} {P : α → Prop} {items : Array α} (h : ∀ a ∈ items, P a) :
    ∀ a ∈ items.pop, P a := by
  intro a mem
  rw [Array.mem_def, Array.toList_pop] at mem
  exact h a (Array.mem_def.2 (List.mem_of_mem_dropLast mem))

theorem Array.forall_extract {α : Type} {P : α → Prop} {items : Array α} (h : ∀ a ∈ items, P a)
    (first last : Nat) : ∀ a ∈ items.extract first last, P a := by
  intro a mem
  obtain ⟨i, inside, rfl⟩ := Array.mem_extract_iff_getElem.1 mem
  exact h _ (Array.getElem_mem _)

theorem Array.forall_shrink {α : Type} {P : α → Prop} {items : Array α} (h : ∀ a ∈ items, P a)
    (size : Nat) : ∀ a ∈ items.shrink size, P a := by
  rw [Array.shrink_eq_take, Array.take_eq_extract]
  exact Array.forall_extract h 0 size

namespace Store.Clear

variable {n : Nat} {s : Store} (h : s.Clear n)
include h

theorem array (r : ArrayRef) : (s.array r).Clear n :=
  Array.forall_getD h.arrays (by simp [ArrayObject.Clear]) _

theorem struct (r : StructRef) : (s.struct r).Clear n := Array.forall_getD h.structs .empty _

theorem map (r : MapRef) : (s.map r).Clear n := Array.forall_getD h.maps (fun _ mem => by cases mem) _

theorem tuple (r : TupleRef) : ∀ v ∈ s.tuple r, v.Stacked n :=
  Array.forall_getD h.tuples (List.forall_mem_nil _) _

theorem channel (r : ChannelRef) : (s.channel r).Clear n :=
  Array.forall_getD h.channels (fun _ mem => by cases mem) _

theorem code (r : CodeRef) : (s.code r).Clear n := Array.forall_getD h.codes (by simp [Code.Clear]) _

theorem table (r : TableRef) : (s.table r).Clear n :=
  Array.forall_getD h.tables (fun _ mem => by cases mem) _

theorem newArray {a : ArrayObject} (ha : a.Clear n) : (s.newArray a).2.Clear n :=
  { h with arrays := Array.forall_push h.arrays ha }

/-- With the new struct there is one more. -/
theorem newStruct {o : StructObject} (ho : o.Clear n) : (s.newStruct o).2.Clear (n + 1) where
  size := by simp [Store.newStruct, h.size]
  arrays a mem := (h.arrays a mem).mono (Nat.le_succ n)
  structs := Array.forall_push (fun o mem => (h.structs o mem).mono (Nat.le_succ n))
    (ho.mono (Nat.le_succ n))
  maps m mem := (h.maps m mem).mono (Nat.le_succ n)
  tuples t mem v inside := (h.tuples t mem v inside).mono (Nat.le_succ n)
  channels c mem := (h.channels c mem).mono (Nat.le_succ n)
  codes c mem := (h.codes c mem).mono (Nat.le_succ n)
  tables t mem := (h.tables t mem).mono (Nat.le_succ n)

theorem newMap {m : MapObject} (hm : m.Clear n) : (s.newMap m).2.Clear n :=
  { h with maps := Array.forall_push h.maps hm }

theorem newTuple {items : List Value} (hi : ∀ v ∈ items, v.Stacked n) :
    (s.newTuple items).2.Clear n := { h with tuples := Array.forall_push h.tuples hi }

theorem newChannel {c : ChannelObject} (hc : c.Clear n) : (s.newChannel c).2.Clear n :=
  { h with channels := Array.forall_push h.channels hc }

theorem newCode {c : Code} (hc : c.Clear n) : (s.newCode c).2.Clear n :=
  { h with codes := Array.forall_push h.codes hc }

theorem newBelow (parent : TableRef) (name : String) (boundary : Bool) :
    (s.newBelow parent name boundary).2.Clear n :=
  { h with tables := Array.forall_push h.tables (List.forall_mem_nil _) }

theorem modifyArray {f : ArrayObject → ArrayObject} (hf : ∀ a, a.Clear n → (f a).Clear n)
    (r : ArrayRef) : (s.modifyArray r f).Clear n :=
  { h with arrays := Array.forall_modify h.arrays hf _ }

theorem modifyStruct {f : StructObject → StructObject} (hf : ∀ o, o.Clear n → (f o).Clear n)
    (r : StructRef) : (s.modifyStruct r f).Clear n :=
  { h with
    size := by simp [Store.modifyStruct, h.size]
    structs := Array.forall_modify h.structs hf _ }

theorem modifyMap {f : MapObject → MapObject} (hf : ∀ m, m.Clear n → (f m).Clear n) (r : MapRef) :
    (s.modifyMap r f).Clear n := { h with maps := Array.forall_modify h.maps hf _ }

theorem modifyChannel {f : ChannelObject → ChannelObject} (hf : ∀ c, c.Clear n → (f c).Clear n)
    (r : ChannelRef) : (s.modifyChannel r f).Clear n :=
  { h with channels := Array.forall_modify h.channels hf _ }

theorem modifyTable {f : Table → Table} (hf : ∀ t, t.Clear n → (f t).Clear n) (r : TableRef) :
    (s.modifyTable r f).Clear n := { h with tables := Array.forall_modify h.tables hf _ }

/-- Binding an ordinary value. -/
theorem bind {name : String} {b : Binding} (hb : b.value.Ordinary n) (r : TableRef) :
    (s.modifyTable r fun t => t.bind name b).Clear n := by
  refine h.modifyTable (fun t ht => ?_) r
  exact Association.forall_insert (P := fun b : Binding => b.value.Ordinary n) ht hb

theorem setAlways {v : Value} (hv : v.Ordinary n) (r : TableRef) (name : String) :
    (r.setAlways name v s).Clear n := by
  refine h.modifyTable (fun t ht => ?_) r
  split <;> exact Association.forall_insert (P := fun b : Binding => b.value.Ordinary n) ht hv

theorem binding? (r : TableRef) (name : String) :
    ∀ b ∈ (s.table r).binding? name, b.value.Ordinary n :=
  Association.forall_find? (P := fun b : Binding => b.value.Ordinary n) (h.table r)

theorem get? (r : TableRef) (name : String) (full : Bool) :
    ∀ v ∈ r.get? s name full, v.Ordinary n := by
  intro v found
  obtain ⟨b, resolved, rfl⟩ := Option.map_eq_some_iff.1 found
  obtain ⟨t, -, bound⟩ := Option.bind_eq_some_iff.1 resolved
  exact h.binding? t name b bound

theorem findAbove (name : String) (bound : Nat) (r : Option StructRef) :
    ∀ v ∈ StructRef.findAbove s name bound r, v.Ordinary n := by
  induction bound generalizing r with
  | zero => nofun
  | succ bound ih =>
    cases r with
    | none => nofun
    | some r =>
      unfold StructRef.findAbove
      split
      · next found =>
        rintro _ ⟨⟩
        exact Association.forall_find? (P := Value.Ordinary n) (h.struct r).fields _ found
      · exact ih _

end Store.Clear

namespace StructObject.Clear

variable {n : Nat} {o : StructObject} (h : o.Clear n)
include h

theorem find? (name : String) : ∀ v ∈ Association.find? name o.fields, v.Ordinary n :=
  Association.forall_find? (P := Value.Ordinary n) h.fields

theorem get? (name : String) : ∀ v ∈ o.get? name, v.Ordinary n := by
  unfold StructObject.get?
  split
  · intro v found
    unfold StructObject.reserved? at found
    split at found
    · cases found
      trivial
    · obtain ⟨r, parent, rfl⟩ := Option.map_eq_some_iff.1 found
      exact h.parent r parent
    · cases found
      trivial
    · cases found
      trivial
  · exact h.find? name

theorem getInherited? {s : Store} (hs : s.Clear n) (name : String) :
    ∀ v ∈ StructRef.getInherited? s o name, v.Ordinary n := by
  intro v found
  rcases Option.or_eq_some_iff.1 found with own | ⟨-, above⟩
  · exact h.get? name v own
  · exact hs.findAbove name _ _ v above

end StructObject.Clear

/-! ### Parents -/

/-- Which structs may be given which parents. -/
def Links : Type := StructRef → Option StructRef → Prop

/-- Structs keep their parents but for links that may be made, and new structs have older ones. -/
structure Store.Kin (L : Links) (s s' : Store) : Prop where
  size_le : s.structs.size ≤ s'.structs.size
  parents : ∀ r, (s'.struct r).parent = (s.struct r).parent ∨ L r (s'.struct r).parent ∨
    s.structs.size ≤ r.index ∧ ∀ p ∈ (s'.struct r).parent, p.index < r.index

namespace Store.Kin

variable {L : Links} {s s' s'' : Store}

theorem of_same (same : s'.structs = s.structs) : s.Kin L s' := by
  refine ⟨by rw [same], fun r => .inl ?_⟩
  simp [Store.struct, same]

theorem refl (s : Store) : s.Kin L s := of_same rfl

theorem imp {L' : Links} (h : s.Kin L s') (imp : ∀ r parent, L r parent → L' r parent) :
    s.Kin L' s' :=
  ⟨h.size_le, fun r => (h.parents r).imp_right (.imp_left (imp r _))⟩

theorem trans (first : s.Kin L s') (second : s'.Kin L s'') : s.Kin L s'' := by
  refine ⟨first.size_le.trans second.size_le, fun r => ?_⟩
  rcases second.parents r with same | linked | ⟨new, older⟩
  · rw [same]
    exact first.parents r
  · exact .inr (.inl linked)
  · exact .inr (.inr ⟨first.size_le.trans new, older⟩)

theorem newStruct {o : StructObject} (older : ∀ p ∈ o.parent, p.index < s.structs.size) :
    s.Kin L (s.newStruct o).2 := by
  refine ⟨by simp [Store.newStruct], fun r => ?_⟩
  simp only [Store.struct, Store.newStruct, Array.getD_eq_getD_getElem?, Array.getElem?_push]
  split
  · next last => exact .inr (.inr ⟨Nat.le_of_eq last.symm, fun p mem => last ▸ older p mem⟩)
  · exact .inl rfl

/-- Changing a struct, which keeps the parent from before or is given one that it may have. -/
theorem modifyStruct {r : StructRef} {f : StructObject → StructObject} (kin : s.Kin L s')
    (parent : (f (s'.struct r)).parent = (s.struct r).parent ∨ L r (f (s'.struct r)).parent) :
    s.Kin L (s'.modifyStruct r f) := by
  refine ⟨kin.size_le.trans (by simp [Store.modifyStruct]), fun q => ?_⟩
  have before := kin.parents q
  simp only [Store.struct, Store.modifyStruct, Array.getD_eq_getD_getElem?,
    Array.getElem?_modify] at before parent ⊢
  split
  · next here =>
    obtain rfl : r = q := by cases r; cases q; exact congrArg StructRef.mk here
    cases found : s'.structs[r.index]? with
    | none =>
      rw [found] at before
      exact before
    | some o =>
      rw [found] at parent
      exact parent.imp_right .inl
  · exact before

end Store.Kin

/-! ## Calm computations -/

/-- Every value of the context is ordinary. -/
structure Context.Clear (n : Nat) (c : Context) : Prop where
  stack : ∀ v ∈ c.stack, v.Stacked n
  receivers : ∀ v ∈ c.receivers, v.Ordinary n

theorem Context.Clear.mono {n n' : Nat} {c : Context} (h : c.Clear n) (le : n ≤ n') : c.Clear n' :=
  ⟨fun v mem => (h.stack v mem).mono le, fun v mem => (h.receivers v mem).mono le⟩

/-- What is to be launched is given ordinary values. -/
structure Launch.Clear (n : Nat) (l : Launch) : Prop where
  callee : l.callee.Ordinary n
  args : ∀ v ∈ l.args, v.Ordinary n
  receiver : ∀ v ∈ l.receiver, v.Ordinary n

/-- All that is to be launched is given ordinary values. -/
def World.Clear (n : Nat) (w : World) : Prop := ∀ l ∈ w.launched, l.Clear n

theorem World.Clear.mono {n n' : Nat} {w : World} (h : w.Clear n) (le : n ≤ n') : w.Clear n' :=
  fun l mem => ⟨(h l mem).callee.mono le, fun v given => ((h l mem).args v given).mono le,
    fun v given => ((h l mem).receiver v given).mono le⟩

theorem World.Clear.launching {n : Nat} {w : World} {l : Launch} (h : w.Clear n) (hl : l.Clear n) :
    (w.launching l).Clear n := by
  intro l' mem
  unfold World.launching at mem
  split at mem
  · rcases List.mem_append.1 mem with old | new
    · exact h l' old
    · exact List.mem_singleton.1 new ▸ hl
  · exact h l' mem

/-- What of a context only the debugger and the machine look at. -/
structure Guise where
  debugger : Debugger
  state : ContextState

/-- The context in another guise. -/
def Context.dressed (g : Guise) (c : Context) : Context :=
  { c with debugger := g.debugger, state := g.state }

/-- States that values can get into, with a debugger. -/
class Watched (M : Type → Type) [Monad M] [MonadExceptOf Fault M] [Stateful M] where
  /-- There are `n` structs in the state, and every value in it is ordinary. -/
  Clear : Nat → Stateful.State M → Prop
  /-- The state in another guise. -/
  dressed : Guise → Stateful.State M → Stateful.State M

instance : Watched StoreM where
  Clear := Store.Clear
  dressed _ s := s

instance : Watched WorldM where
  Clear n s := s.1.Clear n ∧ s.2.Clear n
  dressed _ s := s

instance : Watched Exec where
  Clear n s := s.1.Clear n ∧ s.2.1.Clear n ∧ s.2.2.Clear n
  dressed g s := (s.1.dressed g, s.2)

section

variable {M : Type → Type} [Monad M] [MonadExceptOf Fault M] [Stateful M] [Watched M]
variable {L : Links} {n : Nat} {α β : Type} {P : Nat → α → Prop} {Q : Nat → β → Prop} {R : α → Prop}
variable {m m' : M α}

/-- What a computation does to a state: it leads to a clear one, with a result that passes a test or
a fault that is no signal, links no structs but where it may, and neither sees nor changes the
guise. -/
structure CalmAt (L : Links) (P : Nat → α → Prop) (m : M α) (s : Stateful.State M) : Prop where
  clear : Watched.Clear (M := M) (Stateful.store (Stateful.run m s).2).structs.size (Stateful.run m s).2
  kin : (Stateful.store s).Kin L (Stateful.store (Stateful.run m s).2)
  result : ∀ a, (Stateful.run m s).1 = .ok a →
    P (Stateful.store (Stateful.run m s).2).structs.size a
  ordinary : Except.Ordinary (Stateful.run m s).1
  blind : ∀ g, Stateful.run m (Watched.dressed (M := M) g s) =
    ((Stateful.run m s).1, Watched.dressed (M := M) g (Stateful.run m s).2)

/-- From clear states with `n` structs a computation leads to clear ones, with results that pass a
test or faults that are no signals, links no structs but where it may, and neither sees nor changes
the guise. -/
def Calm (L : Links) (n : Nat) (P : Nat → α → Prop) (m : M α) : Prop :=
  ∀ s, Watched.Clear (M := M) n s → (Stateful.store s).structs.size = n → CalmAt L P m s

/-- A calm computation that makes no struct. -/
abbrev Still (L : Links) (n : Nat) (R : α → Prop) (m : M α) : Prop :=
  Calm L n (fun n' a => n' = n ∧ R a) m

/-- More structs may be linked. -/
theorem CalmAt.weaken {L' : Links} {s : Stateful.State M} (h : CalmAt L P m s)
    (imp : ∀ r parent, L r parent → L' r parent) : CalmAt L' P m s :=
  { h with kin := h.kin.imp imp }

theorem CalmAt.bind {k : α → M β} {s : Stateful.State M} (hm : CalmAt L P m s)
    (hk : ∀ a s', Stateful.run m s = (.ok a, s') → CalmAt L Q (k a) s') :
    CalmAt L Q (m >>= k) s := by
  obtain ⟨clear, kin, result, ordinary, blind⟩ := hm
  rcases ran : Stateful.run m s with ⟨f | a, s'⟩ <;> rw [ran] at clear kin result ordinary blind
  · constructor <;> simp only [Stateful.run_bind, ran, blind]
    · exact clear
    · exact kin
    · nofun
    · exact .error (ordinary f rfl)
    · exact fun _ => trivial
  · have next := hk a s' ran
    constructor <;> simp only [Stateful.run_bind, ran, blind]
    · exact next.clear
    · exact kin.trans next.kin
    · exact next.result
    · exact next.ordinary
    · exact next.blind

/-- What is calm behind a computation that is calm from one state. -/
theorem CalmAt.before {k : α → M β} {s : Stateful.State M} (hm : CalmAt L P m s)
    (hk : ∀ n', (Stateful.store s).structs.size ≤ n' → ∀ a, P n' a → Calm L n' Q (k a)) :
    CalmAt L Q (m >>= k) s := by
  refine hm.bind fun a s' ran => ?_
  have kin := hm.kin
  have clear := hm.clear
  have result := hm.result a
  rw [ran] at kin clear result
  exact hk _ kin.size_le a (result rfl) s' clear rfl

namespace Calm

theorem pure {a : α} (h : P n a) : Calm L n P (Pure.pure a : M α) := by
  intro s clear size
  constructor <;> simp only [Stateful.run_pure]
  · exact size ▸ clear
  · exact .refl _
  · rintro _ ⟨⟩
    exact size ▸ h
  · exact .ok a
  · exact fun _ => trivial

theorem throw {f : Fault} (h : f.Ordinary) : Calm L n P (MonadExcept.throw f : M α) := by
  intro s clear size
  constructor <;> simp only [Stateful.run_throw]
  · exact size ▸ clear
  · exact .refl _
  · nofun
  · exact .error h
  · exact fun _ => trivial

/-- Raising a fault that no other fault has caused. -/
theorem throws {f : Fault} (uncaused : f.causes = []) (kind : f.kind ≠ .debuggerSignal) :
    Calm L n P (MonadExcept.throw f : M α) := throw (.of_kind uncaused kind)

theorem bind {k : α → M β} (hm : Calm L n P m)
    (hk : ∀ n', n ≤ n' → ∀ a, P n' a → Calm L n' Q (k a)) : Calm L n Q (m >>= k) :=
  fun s clear size => (hm s clear size).before fun n' le => hk n' (size ▸ le)

theorem imp {P' : Nat → α → Prop} (hm : Calm L n P m) (h : ∀ n a, P n a → P' n a) :
    Calm L n P' m :=
  fun s clear size => { hm s clear size with result := fun a ok => h _ a ((hm s clear size).result a ok) }

theorem map [LawfulMonad M] {f : α → β} (hm : Calm L n P m) (hf : ∀ n' a, P n' a → Q n' (f a)) :
    Calm L n Q (f <$> m) := by
  rw [map_eq_pure_bind]
  exact hm.bind fun n' _ a ha => pure (hf n' a ha)

theorem ite {p : Prop} [Decidable p] (yes : Calm L n P m) (no : Calm L n P m') :
    Calm L n P (if p then m else m') := by
  split
  · exact yes
  · exact no

theorem listMapM [LawfulMonad M] {k : α → M β} {items : List α} (up : Upward P) (upward : Upward Q)
    (hi : ∀ a ∈ items, P n a) (hk : ∀ n a, P n a → Calm L n Q (k a)) :
    Calm L n (fun n bs => ∀ b ∈ bs, Q n b) (items.mapM k) := by
  induction items generalizing n with
  | nil => exact pure (List.forall_mem_nil _)
  | cons a rest ih =>
    rw [List.forall_mem_cons] at hi
    rw [List.mapM_cons]
    exact (hk n a hi.1).bind fun _ le b hb => (ih fun a mem => up (hi.2 a mem) le).bind
      fun _ le bs hbs => pure (List.forall_mem_cons.2 ⟨upward hb le, hbs⟩)

theorem arrayMapM [LawfulMonad M] {k : α → M β} {items : Array α} (up : Upward P)
    (upward : Upward Q) (hi : ∀ a ∈ items, P n a) (hk : ∀ n a, P n a → Calm L n Q (k a)) :
    Calm L n (fun n bs => ∀ b ∈ bs, Q n b) (items.mapM k) := by
  rw [Array.mapM_eq_mapM_toList]
  exact (listMapM up upward (fun a mem => hi a (Array.mem_def.2 mem)) hk).map fun _ bs hbs b mem =>
    hbs b (List.mem_toArray.1 mem)

theorem foldlM {k : β → α → M β} {items : List α} {start : β} (up : Upward P)
    (hi : ∀ a ∈ items, P n a) (hs : Q n start)
    (hk : ∀ n b a, Q n b → P n a → Calm L n Q (k b a)) : Calm L n Q (items.foldlM k start) := by
  induction items generalizing n start with
  | nil => exact pure hs
  | cons a rest ih =>
    rw [List.forall_mem_cons] at hi
    exact (hk n start a hs hi.1).bind fun _ le b hb => ih (fun a mem => up (hi.2 a mem) le) hb

end Calm

namespace Still

theorem pure {a : α} (h : R a) : Still L n R (Pure.pure a : M α) := Calm.pure ⟨rfl, h⟩

/-- What follows a computation that makes no struct. -/
theorem bind {k : α → M β} (hm : Still L n R m) (hk : ∀ a, R a → Calm L n Q (k a)) :
    Calm L n Q (m >>= k) := Calm.bind hm fun _ _ a ⟨same, ha⟩ => same ▸ hk a ha

theorem map [LawfulMonad M] {S : β → Prop} {f : α → β} (hm : Still L n R m)
    (hf : ∀ a, R a → S (f a)) : Still L n S (f <$> m) := Calm.map hm fun _ a ha => ha.imp_right (hf a)

/-- A computation that makes no struct is calm. -/
theorem calm [LawfulMonad M] (hm : Still L n R m) (h : ∀ a, R a → P n a) : Calm L n P m := by
  rw [← bind_pure m]
  exact hm.bind fun a ha => Calm.pure (h a ha)

end Still

end

/-! ## The store -/

namespace StoreM

variable {L : Links} {n : Nat} {α : Type} {P : Nat → α → Prop} {R : α → Prop}

/-- A computation that leaves the structs alone. -/
theorem still_of {m : StoreM α} (h : ∀ s, s.Clear n → (m s).2.Clear n ∧
    (m s).2.structs = s.structs ∧ (∀ a, (m s).1 = .ok a → R a) ∧ Except.Ordinary (m s).1) :
    Still L n R m := by
  intro s clear _
  obtain ⟨clear', same, result, ordinary⟩ := h s clear
  have size : (m s).2.structs.size = n := clear'.size
  exact ⟨by exact size.symm ▸ clear', .of_same same, fun a ok => ⟨size, result a ok⟩, ordinary,
    fun _ => rfl⟩

theorem of_still {m : StoreM α} (h : ∀ s, s.Clear n → (m s).2.Clear n ∧
    (m s).2.structs = s.structs ∧ (∀ a, (m s).1 = .ok a → P n a) ∧ Except.Ordinary (m s).1) :
    Calm L n P m := (still_of h).calm fun _ => id

theorem get_still : Still L n (Store.Clear n) (get : StoreM Store) :=
  still_of fun s clear => ⟨clear, rfl, fun _ ok => by cases ok; exact clear, .ok s⟩

theorem read_still {read : Store → α} (h : ∀ s, s.Clear n → R (read s)) :
    @Still StoreM _ _ _ _ α L n R fun s => (Except.ok (read s), s) :=
  still_of fun s clear => ⟨clear, rfl, fun _ ok => by cases ok; exact h s clear, .ok _⟩

theorem modify_calm {f : Store → Store} (h : ∀ s, s.Clear n → (f s).Clear n)
    (same : ∀ s, (f s).structs = s.structs) : Calm L n (fun _ _ => True) (modify f : StoreM Unit) :=
  of_still fun s clear => ⟨h s clear, same s, fun _ _ => trivial, .ok ()⟩

/-- Changing a struct that keeps its parent. -/
theorem modifyStruct_calm {f : StructObject → StructObject} (r : StructRef)
    (h : ∀ o, o.Clear n → (f o).Clear n) (same : ∀ o, (f o).parent = o.parent) :
    Calm L n (fun _ _ => True) (modify fun s => s.modifyStruct r f : StoreM Unit) := by
  intro s clear _
  have clear' : (s.modifyStruct r f).Clear n := clear.modifyStruct h r
  exact ⟨by exact clear'.size.symm ▸ clear', .modifyStruct (.refl s) (.inl (same _)), fun _ _ => trivial,
    .ok (), fun _ => rfl⟩

theorem tryCatch_calm {m : StoreM α} {k : Fault → StoreM α} (hm : Calm L n P m)
    (hk : ∀ n f, Calm L n P (k f)) : Calm L n P (tryCatch m k) := by
  intro s clear size
  obtain ⟨clear', kin, result, ordinary, -⟩ := hm s clear size
  change (m s).2.Clear (m s).2.structs.size at clear'
  change s.Kin L (m s).2 at kin
  change ∀ a, (m s).1 = .ok a → P (m s).2.structs.size a at result
  have ran : Stateful.run (tryCatch m k) s = match m s with
      | (.error f, s) => k f s
      | (.ok a, s) => (.ok a, s) := by
    simp only [Stateful.run, tryCatch, tryCatchThe, MonadExceptOf.tryCatch, ExceptT.tryCatch,
      ExceptT.mk, Bind.bind, StateT.bind]
    rcases m s with ⟨f | a, s'⟩ <;> rfl
  rcases here : m s with ⟨f | a, s'⟩ <;> rw [here] at clear' kin result ran
  · obtain ⟨clear'', kin', result', ordinary', -⟩ := hk _ f s' clear' rfl
    constructor <;> rw [ran]
    · exact clear''
    · exact kin.trans kin'
    · exact result'
    · exact ordinary'
    · exact fun _ => ran
  · constructor <;> rw [ran]
    · exact clear'
    · exact kin
    · exact result
    · exact .ok a
    · exact fun _ => ran

theorem array_calm {element : Ty} {items : Array Value} (h : ∀ v ∈ items, v.Ordinary n) :
    Calm L n Value.Ordinary (array element items) :=
  of_still fun _ clear => ⟨clear.newArray h, rfl, fun _ ok => by cases ok; trivial, .ok _⟩

theorem struct_calm {o : StructObject} (h : o.Clear n) : Calm L n Value.Ordinary (struct o) := by
  intro s clear size
  have clear' : (s.newStruct o).2.Clear (n + 1) := clear.newStruct h
  refine ⟨by exact clear'.size.symm ▸ clear', .newStruct (size ▸ h.parent), fun v ok => ?_, .ok _,
    fun _ => rfl⟩
  cases ok
  change s.structs.size < (s.newStruct o).2.structs.size
  rw [clear'.size, clear.size]
  exact Nat.lt_succ_self n

theorem map_calm {m : MapObject} (h : m.Clear n) : Calm L n Value.Ordinary (map m) :=
  of_still fun _ clear => ⟨clear.newMap h, rfl, fun _ ok => by cases ok; trivial, .ok _⟩

theorem tuple_calm {items : List Value} (h : ∀ v ∈ items, v.Stacked n) :
    Calm L n (fun _ _ => True) (tuple items) :=
  of_still fun _ clear => ⟨clear.newTuple h, rfl, fun _ _ => trivial, .ok _⟩

theorem channel_calm (element : Ty) (capacity : Nat) :
    Calm L n Value.Ordinary (channel element capacity) :=
  of_still fun _ clear => ⟨clear.newChannel (List.forall_mem_nil _), rfl,
    fun _ ok => by cases ok; trivial, .ok _⟩

theorem waitGroup_calm : Calm L n Value.Ordinary waitGroup :=
  of_still fun _ clear => ⟨{ clear with }, rfl, fun _ ok => by cases ok; trivial, .ok _⟩

theorem mutex_calm : Calm L n Value.Ordinary mutex :=
  of_still fun _ clear => ⟨{ clear with }, rfl, fun _ ok => by cases ok; trivial, .ok _⟩

end StoreM

end StackScript
