import Mathlib.Order.Nat
import StackScript.Proofs.Constants.Holding

/-!
# Scoped names

Tables are built one below another, and names are declared, bound, changed and removed in them in
any order. Seen from a table, a name has the binding of the nearest table that has the name, going
up through the parents to the first boundary and from there to the root. An operation either fails
and changes no table, or changes one binding of one table.

Main statements: `TableOp.run_does` (what one operation does), `Scoped.tree` (what every sequence of
operations keeps) and `Scoped.refines_environment`.
-/
namespace StackScript

/-! ## Associations -/

namespace Association

variable {α β : Type} [BEq α] [LawfulBEq α] {key other : α} {entries : List (α × β)}

theorem mem_keys : key ∈ keys entries ↔ (find? key entries).isSome := by
  rw [find?_isSome]
  simp [keys, has]

theorem mem_of_find? {value : β} (found : find? key entries = some value) :
    (key, value) ∈ entries := by
  induction entries with
  | nil => cases found
  | cons e rest ih =>
    unfold find? at found
    split at found
    · next here =>
      cases found
      rw [← eq_of_beq here]
      exact List.mem_cons_self
    · exact List.mem_cons_of_mem _ (ih found)

theorem nodup_keys_insert (value : β) (distinct : (keys entries).Nodup) :
    (keys (insert key value entries)).Nodup := by
  by_cases present : has key entries = true
  · rwa [keys_insert_of_has value present]
  · have added : keys (insert key value entries) = keys entries ++ [key] := by
      clear distinct
      induction entries with
      | nil => rfl
      | cons e rest ih =>
        have apart : (e.1 == key) = false := by simp_all [has]
        simpa [insert, keys, apart] using ih (by simp_all [has])
    rw [added, List.nodup_append]
    refine ⟨distinct, by simp, fun k mem k' last same => present ?_⟩
    rw [← find?_isSome, ← mem_keys, ← List.mem_singleton.1 last, ← same]
    exact mem

omit [LawfulBEq α] in
theorem keys_erase (key : α) (entries : List (α × β)) :
    keys (erase key entries) = (keys entries).erase key := by
  induction entries with
  | nil => rfl
  | cons e rest ih =>
    cases hk : e.1 == key
    · simpa [erase, keys, hk, List.erase_cons] using ih
    · simp [erase, keys, hk, List.erase_cons]

theorem find?_erase_self (distinct : (keys entries).Nodup) : find? key (erase key entries) = none := by
  have gone : key ∉ keys (erase key entries) := by
    rw [keys_erase]
    exact distinct.not_mem_erase
  rw [mem_keys] at gone
  simpa using gone

theorem find?_erase_of_ne (h : other ≠ key) (entries : List (α × β)) :
    find? other (erase key entries) = find? other entries := by
  induction entries with
  | nil => rfl
  | cons e rest ih =>
    cases hk : e.1 == key
    · simp [erase, find?, hk, ih]
    · have apart : (e.1 == other) = false := by
        rw [eq_of_beq hk]
        exact beq_false_of_ne h.symm
      simp [erase, find?, hk, apart]

end Association

/-! ## Copies -/

/-- A computation that does not fail. -/
def StoreM.Succeeds {α : Type} (m : StoreM α) : Prop := ∀ s, ∃ a s', m s = (.ok a, s')

namespace StoreM.Succeeds

variable {α β : Type}

theorem pure (a : α) : Succeeds (Pure.pure a : StoreM α) := fun s => ⟨a, s, rfl⟩

theorem bind {m : StoreM α} {f : α → StoreM β} (hm : Succeeds m) (hf : ∀ a, Succeeds (f a)) :
    Succeeds (m >>= f) := by
  intro s
  obtain ⟨a, s₁, first⟩ := hm s
  rw [bind_of_ok first]
  exact hf a s₁

theorem get : Succeeds (MonadState.get : StoreM Store) := fun s => ⟨s, s, rfl⟩

theorem mapM {f : α → StoreM β} (hf : ∀ a, Succeeds (f a)) (items : Array α) :
    Succeeds (items.mapM f) := by
  rw [Array.mapM_eq_foldlM, ← Array.foldlM_toList]
  generalize (#[] : Array β) = start
  induction items.toList generalizing start with
  | nil => exact .pure _
  | cons a rest ih =>
    rw [List.foldlM_cons]
    exact .bind (.bind (hf a) fun _ => .pure _) ih

end StoreM.Succeeds

namespace Value

open StoreM (Succeeds)

theorem copyEntries_succeeds {α : Type} {copy : Value → StoreM Value}
    (h : ∀ v, Succeeds (copy v)) (entries : List (α × Value)) :
    Succeeds (copyEntries copy entries) := by
  induction entries with
  | nil => exact .pure _
  | cons e rest ih => exact .bind (h e.2) fun _ => .bind ih fun _ => .pure _

theorem copyTo_succeeds (depth : Nat) (v : Value) : Succeeds (copyTo depth v) := by
  induction depth generalizing v with
  | zero => exact .pure v
  | succ depth ih =>
    cases v
    case array => exact .bind .get fun _ => .bind (.mapM ih _) fun _ s => ⟨_, _, rfl⟩
    case struct => exact .bind .get fun _ => .bind (copyEntries_succeeds ih _) fun _ s => ⟨_, _, rfl⟩
    case map => exact .bind .get fun _ => .bind (copyEntries_succeeds ih _) fun _ s => ⟨_, _, rfl⟩
    all_goals exact .pure _

/-- A copy can always be made. -/
theorem copy_succeeds (v : Value) : Succeeds (copy v) :=
  .bind .get fun _ => copyTo_succeeds _ v

end Value

/-! ## Trees of tables -/

/-- No name is bound twice in a table. -/
def Table.Distinct (t : Table) : Prop := (Association.keys t.bindings).Nodup

namespace Table

theorem Distinct.bind {t : Table} (h : t.Distinct) (name : String) (b : Binding) :
    (t.bind name b).Distinct := Association.nodup_keys_insert b h

theorem Distinct.erase {t : Table} (h : t.Distinct) (name : String) :
    Distinct { t with bindings := Association.erase name t.bindings } := by
  rw [Distinct, Association.keys_erase]
  exact List.Nodup.erase name h

theorem binds_eq (t : Table) (name : String) : t.binds name = (t.binding? name).isSome :=
  (Association.find?_isSome name t.bindings).symm

theorem mem_names {t : Table} {name : String} : name ∈ t.names ↔ (t.binding? name).isSome := by
  rw [names, sortNames, List.mem_mergeSort, Association.mem_keys]
  rfl

end Table

namespace Store

/-- Every table was added after its parent, with which it shares the root. -/
structure Tree (s : Store) : Prop where
  below {r p : TableRef} : (s.table r).parent = some p →
    p.index < r.index ∧ (s.table r).root = some ((s.table p).root.getD p)
  top {r : TableRef} : (s.table r).parent = none →
    (s.table r).root = none ∧ (s.table r).boundary = false
  distinct (r : TableRef) : (s.table r).Distinct

/-- A table with all that lie above it, the nearest one first. -/
inductive Lineage (s : Store) : TableRef → List TableRef → Prop
  | root {r : TableRef} (none : (s.table r).parent = none) : Lineage s r [r]
  | under {r p : TableRef} {above : List TableRef} (parent : (s.table r).parent = some p)
      (rest : Lineage s p above) : Lineage s r (r :: above)

theorem Lineage.unique {s : Store} {r : TableRef} {l l' : List TableRef} (h : s.Lineage r l)
    (h' : s.Lineage r l') : l = l' := by
  induction h generalizing l' with
  | root none =>
    cases h' with
    | root => rfl
    | under parent => exact absurd (none.symm.trans parent) nofun
  | under parent _ ih =>
    cases h' with
    | root none => exact absurd (none.symm.trans parent) nofun
    | under parent' rest =>
      obtain rfl := Option.some.inj (parent.symm.trans parent')
      rw [ih rest]

/-- What is seen of a lineage: all of it, or no more than the first boundary and the root. -/
def sight (s : Store) (full : Bool) : List TableRef → List TableRef
  | [] => []
  | r :: above =>
    r :: if (s.table r).boundary && !full then above.getLast?.toList else sight s full above

/-- The first table in sight that has a name. -/
def nearest? (s : Store) (full : Bool) (l : List TableRef) (name : String) : Option TableRef :=
  (s.sight full l).find? fun t => ((s.table t).binding? name).isSome

namespace Tree

variable {s : Store} (h : s.Tree) {r q : TableRef} {l : List TableRef}

include h

theorem exists_lineage (r : TableRef) : ∃ l, s.Lineage r l := by
  induction at_ : r.index using Nat.strong_induction_on generalizing r with
  | _ n ih =>
    cases parent : (s.table r).parent with
    | none => exact ⟨_, .root parent⟩
    | some p =>
      obtain ⟨above, rest⟩ := ih p.index (at_ ▸ (h.below parent).1) p rfl
      exact ⟨_, .under parent rest⟩

theorem getLast_lineage (along : s.Lineage r l) : l.getLast? = some ((s.table r).root.getD r) := by
  induction along with
  | root none => simp [(h.top none).1]
  | under parent _ ih => simp [List.getLast?_cons, ih, (h.below parent).2]

/-- Nothing lies above a root. -/
theorem parent_root (along : s.Lineage r l) (root : (s.table r).root = some q) :
    (s.table q).parent = none := by
  induction along with
  | root none => simp [(h.top none).1] at root
  | @under r p above parent _ ih =>
    obtain rfl := Option.some.inj ((h.below parent).2.symm.trans root)
    cases shared : (s.table p).root with
    | some root =>
      rw [← shared]
      exact ih (by simp [shared])
    | none =>
      cases higher : (s.table p).parent with
      | none => simpa using higher
      | some _ => simp [(h.below higher).2] at shared

theorem chainTo_lineage (along : s.Lineage r l) (full : Bool) {bound : Nat} (room : r.index < bound) :
    TableRef.chainTo s full bound r = s.sight full l := by
  induction along generalizing bound with
  | @root r none =>
    obtain ⟨bound, rfl⟩ := Nat.exists_eq_succ_of_ne_zero (Nat.ne_zero_of_lt room)
    simp [TableRef.chainTo, Table.next, sight, none, h.top none]
  | @under r p above parent rest ih =>
    obtain ⟨bound, rfl⟩ := Nat.exists_eq_succ_of_ne_zero (Nat.ne_zero_of_lt room)
    obtain ⟨older, shared⟩ := h.below parent
    by_cases cut : ((s.table r).boundary && !full) = true
    · have last := h.getLast_lineage rest
      obtain ⟨bound, rfl⟩ := Nat.exists_eq_succ_of_ne_zero (Nat.ne_zero_of_lt (by omega : 0 < bound))
      have end_ := h.parent_root (.under parent rest) shared
      simp [TableRef.chainTo, Table.next, sight, cut, shared, last, end_, h.top end_]
    · simp only [TableRef.chainTo, Table.next, sight, cut, parent]
      simpa using ih (by omega)

theorem chain_eq (along : s.Lineage r l) (full : Bool) : r.chain s full = s.sight full l :=
  h.chainTo_lineage along full (Nat.lt_succ_self _)

end Tree

end Store

/-- What is left without repetitions has none. -/
theorem nodup_eraseDups (names : List String) : names.eraseDups.Nodup := by
  induction length : names.length using Nat.strong_induction_on generalizing names with
  | _ n ih =>
    cases names with
    | nil => exact List.nodup_nil
    | cons name rest =>
      rw [List.eraseDups_cons, List.nodup_cons]
      refine ⟨by simp [List.mem_eraseDups], ih _ ?_ _ rfl⟩
      exact length ▸ Nat.lt_succ_of_le (List.length_filter_le ..)

namespace TableRef

variable {s : Store} {r : TableRef}

theorem findTo_eq (full : Bool) (name : String) (bound : Nat) (r : TableRef) :
    findTo s full name bound r =
      (chainTo s full bound r).find? fun t => ((s.table t).binding? name).isSome := by
  induction bound generalizing r with
  | zero => rfl
  | succ bound ih =>
    have has := (s.table r).binds_eq name
    cases next : (s.table r).next full <;> cases found : (s.table r).binds name <;>
      simp_all [findTo, chainTo]

/-- A lookup finds the first table of its chain that has the name. -/
theorem find?_eq (name : String) (full : Bool) :
    r.find? s name full = (r.chain s full).find? fun t => ((s.table t).binding? name).isSome :=
  findTo_eq ..

/-- The table that a lookup finds has the name. -/
theorem found_of_find? {name : String} {full : Bool} {t : TableRef}
    (resolved : r.find? s name full = some t) : ∃ b, (s.table t).binding? name = some b := by
  rw [find?_eq] at resolved
  exact Option.isSome_iff_exists.1 (by simpa using List.find?_some resolved)

theorem get?_isSome (name : String) (full : Bool) :
    (r.get? s name full).isSome = (r.find? s name full).isSome := by
  cases resolved : r.find? s name full with
  | none => simp [get?, resolve?, resolved]
  | some t =>
    obtain ⟨b, found⟩ := found_of_find? resolved
    simp [get?, resolve?, resolved, found]

/-- The names that are seen are those that a lookup finds. -/
theorem mem_visibleNames {name : String} {full : Bool} :
    name ∈ r.visibleNames s full ↔ (r.get? s name full).isSome := by
  rw [get?_isSome, find?_eq, List.find?_isSome, visibleNames, sortNames, List.mem_mergeSort,
    List.mem_eraseDups, List.mem_flatMap]
  exact exists_congr fun t => and_congr_right fun _ => Table.mem_names

/-- No name is listed twice. -/
theorem nodup_visibleNames (r : TableRef) (s : Store) (full : Bool) :
    (r.visibleNames s full).Nodup :=
  (List.mergeSort_perm ..).nodup_iff.2 (nodup_eraseDups _)

end TableRef

/-- A lookup finds the nearest table that has the name. -/
theorem Store.Tree.find?_eq {s : Store} (h : s.Tree) {r : TableRef} {l : List TableRef}
    (along : s.Lineage r l) (name : String) (full : Bool) :
    r.find? s name full = s.nearest? full l name := by
  rw [TableRef.find?_eq, h.chain_eq along]
  rfl

/-! ## Operations -/

/-- What can be done to tables. -/
inductive TableOp where
  | root (name : String)
  | child (parent : TableRef) (name : String)
  | boundary (parent : TableRef) (name : String)
  | create (t : TableRef) (name : String)
  | set (t : TableRef) (name : String) (v : Value)
  | setAlways (t : TableRef) (name : String) (v : Value)
  | setConstant (t : TableRef) (name : String) (v : Value)
  | setReadonly (t : TableRef) (name : String) (readonly : Bool)
  | delete (t : TableRef) (name : String) (force : Bool)

namespace TableOp

/-- Do it. -/
def run : TableOp → StoreM Unit
  | root name => modify fun s => (s.newRoot name).2
  | child parent name => modify fun s => (s.newChild parent name).2
  | boundary parent name => modify fun s => (s.newBoundary parent name).2
  | create t name => t.create name
  | set t name v => t.set name v
  | setAlways t name v => modify (t.setAlways name v)
  | setConstant t name v => t.setConstant name v
  | setReadonly t name readonly => t.setReadonly name readonly
  | delete t name force => t.delete name force

/-- The table that an operation is called on. -/
def on? : TableOp → Option TableRef
  | root _ => none
  | child t _ | boundary t _ | create t _ | set t _ _ | setAlways t _ _ | setConstant t _ _
  | setReadonly t _ _ | delete t _ _ => some t

/-- The table that an operation is called on is there. -/
def Within (op : TableOp) (s : Store) : Prop := ∀ t, op.on? = some t → t.index < s.tables.size

theorem within_of_on {op : TableOp} {s : Store} {t : TableRef} (on : op.on? = some t)
    (here : t.index < s.tables.size) : op.Within s :=
  fun _ same => Option.some.inj (on.symm.trans same) ▸ here

/-- The table that an operation adds. -/
def adds? (s : Store) : TableOp → Option Table
  | root name => some { name := name }
  | child p name =>
    some { name := name, parent := some p, root := some ((s.table p).root.getD p) }
  | boundary p name =>
    some { name := name, parent := some p, root := some ((s.table p).root.getD p), boundary := true }
  | _ => none

/-- What is stored for a value under a name. -/
def Stored (s : Store) (name : String) (v w : Value) : Prop :=
  ((if isPrivate name then v.copy else pure v : StoreM Value) s).1 = .ok w

/-- Which binding an operation replaces, and by what. -/
inductive Asks (s : Store) : TableOp → TableRef → String → Option Binding → Prop
  | create {t : TableRef} {name : String} (free : (s.table t).binding? name = none) :
    Asks s (.create t name) t name
      (some { value := .nil, constant := isPrivate name, bound := false })
  | set {t u : TableRef} {name : String} {v w : Value} {b : Binding}
      (resolved : t.find? s name false = some u) (found : (s.table u).binding? name = some b)
      (unlocked : b.locked = false) (stored : Stored s name v w) :
    Asks s (.set t name v) u name (some { b with value := w, bound := true })
  | declare {t : TableRef} {name : String} {v : Value} (free : (s.table t).binding? name = none) :
    Asks s (.setAlways t name v) t name (some { value := v })
  | overwrite {t : TableRef} {name : String} {v : Value} {b : Binding}
      (found : (s.table t).binding? name = some b) :
    Asks s (.setAlways t name v) t name (some { b with value := v, bound := true })
  | setConstant {t : TableRef} {name : String} {v : Value}
      (unbound : ∀ b, (s.table t).binding? name = some b → b.bound = false) :
    Asks s (.setConstant t name v) t name (some { value := v, readonly := true, constant := true })
  | setReadonly {t : TableRef} {name : String} {readonly : Bool} {b : Binding}
      (found : (s.table t).binding? name = some b) :
    Asks s (.setReadonly t name readonly) t name (some { b with readonly := readonly })
  | delete {t : TableRef} {name : String} {force : Bool} {b : Binding}
      (found : (s.table t).binding? name = some b) (may : b.locked = false ∨ force = true) :
    Asks s (.delete t name force) t name none

/-- Why an operation fails. -/
inductive Refused (s : Store) : TableOp → Fault → Prop
  | exists {t : TableRef} {name : String} {b : Binding}
      (found : (s.table t).binding? name = some b) :
    Refused s (.create t name) (.about .symbolExists name)
  | unseen {t : TableRef} {name : String} {v : Value} (missing : t.resolve? s name false = none) :
    Refused s (.set t name v) (.about .unknownIdentifier name)
  | locked {t : TableRef} {name : String} {v : Value} {b : Binding}
      (resolved : t.resolve? s name false = some b) (locked : b.locked = true) :
    Refused s (.set t name v) (.about .readOnly name)
  | bound {t : TableRef} {name : String} {v : Value} {b : Binding}
      (found : (s.table t).binding? name = some b) (bound : b.bound = true) :
    Refused s (.setConstant t name v) (.about .symbolExists name)
  | missing {t : TableRef} {name : String} {readonly : Bool}
      (missing : (s.table t).binding? name = none) :
    Refused s (.setReadonly t name readonly) (.about .unknownIdentifier name)
  | absent {t : TableRef} {name : String} {force : Bool}
      (missing : (s.table t).binding? name = none) :
    Refused s (.delete t name force) (.about .unknownIdentifier name)
  | kept {t : TableRef} {name : String} {b : Binding}
      (found : (s.table t).binding? name = some b) (locked : b.locked = true) :
    Refused s (.delete t name false) (.about .readOnly name)

end TableOp

/-- The binding of a name in one table is another, and nothing else is. -/
structure Store.Rebinds (s s' : Store) (t : TableRef) (name : String) (b : Option Binding) :
    Prop where
  size : s'.tables.size = s.tables.size
  shape (r : TableRef) : s'.table r = { s.table r with bindings := (s'.table r).bindings }
  bound : (s'.table t).binding? name = b
  others {r : TableRef} {other : String} : r ≠ t ∨ other ≠ name →
    (s'.table r).binding? other = (s.table r).binding? other
  distinct {r : TableRef} : (s.table r).Distinct → (s'.table r).Distinct

/-- What an operation does: it adds a table, replaces one binding, or fails and changes nothing. -/
inductive TableOp.Does (s : Store) (op : TableOp) : Except Fault Unit → Store → Prop
  | added {t : Table} {s' : Store} (asked : op.adds? s = some t)
      (tables : s'.tables = s.tables.push t) : Does s op (.ok ()) s'
  | rebound {t : TableRef} {name : String} {b : Option Binding} {s' : Store}
      (asked : op.Asks s t name b) (done : s.Rebinds s' t name b) : Does s op (.ok ()) s'
  | refused {f : Fault} {s' : Store} (why : op.Refused s f) (same : s'.tables = s.tables) :
    Does s op (.error f) s'

namespace Store.Rebinds

variable {s s₁ s' : Store} {t : TableRef} {name : String}

theorem of_tables {b : Option Binding} (same : s₁.tables = s.tables)
    (h : s₁.Rebinds s' t name b) : s.Rebinds s' t name b := by
  have table (r : TableRef) : s₁.table r = s.table r := by simp [Store.table, same]
  exact
    { size := h.size.trans (by rw [same])
      shape := fun r => by rw [← table]; exact h.shape r
      bound := h.bound
      others := fun {r _} apart => by rw [← table]; exact h.others apart
      distinct := fun {r} distinct => h.distinct (by rw [table]; exact distinct) }

/-- A change of one binding of a table that is there. -/
theorem of_modify (here : t.index < s.tables.size) {f : Table → Table} {b : Option Binding}
    (shape : f (s.table t) = { s.table t with bindings := (f (s.table t)).bindings })
    (bound : (f (s.table t)).binding? name = b)
    (others : ∀ other ≠ name, (f (s.table t)).binding? other = (s.table t).binding? other)
    (distinct : (s.table t).Distinct → (f (s.table t)).Distinct) :
    s.Rebinds (s.modifyTable t f) t name b := by
  have after (r : TableRef) :
      (s.modifyTable t f).table r = if r = t then f (s.table t) else s.table r := by
    split
    · next same => exact same ▸ s.table_modifyTable_self here f
    · next apart => exact s.table_modifyTable_of_ne apart f
  refine
    { size := by simp [modifyTable], shape := fun r => ?_, bound := by simp [after, bound]
      others := fun {r other} apart => ?_, distinct := fun {r} old => ?_ }
  all_goals
    rw [after]
    split
  · next same => exact same ▸ shape
  · rfl
  · next same => exact same ▸ others other (apart.resolve_left (· same))
  · rfl
  · next same => exact distinct (same ▸ old)
  · exact old

theorem bind (here : t.index < s.tables.size) (b : Binding) :
    s.Rebinds (s.modifyTable t fun table => table.bind name b) t name (some b) :=
  .of_modify here rfl (Table.binding?_bind_self ..)
    (fun _ apart => Table.binding?_bind_of_ne _ apart b) fun distinct => distinct.bind name b

theorem erase (here : t.index < s.tables.size) (distinct : (s.table t).Distinct) :
    s.Rebinds (s.modifyTable t fun table =>
      { table with bindings := Association.erase name table.bindings }) t name none :=
  .of_modify here rfl (Association.find?_erase_self distinct)
    (fun _ apart => Association.find?_erase_of_ne apart _) fun distinct => distinct.erase name

end Store.Rebinds

namespace TableOp

variable {s s' : Store} {t : TableRef} {name : String} {v : Value} {result : Except Fault Unit}

theorem create_does (here : t.index < s.tables.size) (run : t.create name s = (result, s')) :
    (create t name).Does s result s' := by
  change (if (s.table t).binds name then throw _ else _ : StoreM Unit) s = _ at run
  rw [Table.binds_eq] at run
  split at run <;> cases run
  · next found =>
    obtain ⟨b, found⟩ := Option.isSome_iff_exists.1 found
    exact .refused (.exists found) rfl
  · next free => exact .rebound (.create (by simpa using free)) (.bind here _)

theorem set_does (run : t.set name v s = (result, s')) : (set t name v).Does s result s' := by
  rw [TableRef.set, StoreM.bind_of_ok (StoreM.get_eq s)] at run
  cases resolved : t.find? s name false with
  | none =>
    rw [resolved] at run
    cases run
    exact .refused (.unseen (by simp [TableRef.resolve?, resolved])) rfl
  | some u =>
    obtain ⟨b, found⟩ := TableRef.found_of_find? resolved
    rw [resolved] at run
    dsimp only at run
    rw [StoreM.bind_of_ok (StoreM.get_eq s), found] at run
    dsimp only at run
    split at run
    · next locked =>
      cases run
      exact .refused (.locked (by simp [TableRef.resolve?, resolved, found]) locked) rfl
    · next unlocked =>
      have copying : StoreM.Succeeds (if isPrivate name then v.copy else pure v) := by
        split
        · exact v.copy_succeeds
        · exact .pure v
      have apart := StoreM.Within.ite (p := isPrivate name = true)
        (v.copy_within Store.addsObjects_tables) (.pure Store.addsObjects_tables v)
      obtain ⟨w, s₁, stored⟩ := copying s
      have same : s₁.tables = s.tables := by simpa [stored] using apart.store s
      have joined (k : Value → StoreM Unit) :
          (if isPrivate name then v.copy >>= k else pure v >>= k) =
            (if isPrivate name then v.copy else pure v) >>= k := by
        split <;> rfl
      rw [joined, StoreM.bind_of_ok stored] at run
      cases run
      have inside := Store.inside_of_found found
      exact .rebound (.set resolved found (by simpa using unlocked) (by rw [Stored, stored]))
        (.of_tables same (.bind (by rw [same]; exact inside) _))

theorem setAlways_does (here : t.index < s.tables.size) :
    (setAlways t name v).Does s (.ok ()) (t.setAlways name v s) := by
  cases found : (s.table t).binding? name with
  | none =>
    refine .rebound (.declare found) (.of_modify here ?_ ?_ (fun _ apart => ?_) fun old => ?_)
    all_goals simp only [found]
    · rfl
    · exact Table.binding?_bind_self ..
    · exact Table.binding?_bind_of_ne _ apart _
    · exact old.bind name _
  | some b =>
    refine .rebound (.overwrite found) (.of_modify here ?_ ?_ (fun _ apart => ?_) fun old => ?_)
    all_goals simp only [found]
    · rfl
    · exact Table.binding?_bind_self ..
    · exact Table.binding?_bind_of_ne _ apart _
    · exact old.bind name _

theorem setConstant_does (here : t.index < s.tables.size)
    (run : t.setConstant name v s = (result, s')) : (setConstant t name v).Does s result s' := by
  change (if ((s.table t).binding? name).any Binding.bound then throw _ else _ : StoreM Unit) s = _
    at run
  cases found : (s.table t).binding? name with
  | none =>
    rw [found] at run
    cases run
    exact .rebound (.setConstant fun b some => absurd (found.symm.trans some) nofun) (.bind here _)
  | some b =>
    cases bound : b.bound <;> simp only [found, Option.any_some, bound] at run <;> cases run
    · refine .rebound (.setConstant fun b' some => ?_) (.bind here _)
      obtain rfl := Option.some.inj (found.symm.trans some)
      exact bound
    · exact .refused (.bound found bound) rfl

theorem setReadonly_does {readonly : Bool} (here : t.index < s.tables.size)
    (run : t.setReadonly name readonly s = (result, s')) :
    (setReadonly t name readonly).Does s result s' := by
  rw [TableRef.setReadonly, StoreM.bind_of_ok (StoreM.get_eq s)] at run
  cases found : (s.table t).binding? name with
  | none =>
    rw [found] at run
    cases run
    exact .refused (.missing found) rfl
  | some b =>
    rw [found] at run
    cases run
    exact .rebound (.setReadonly found) (.bind here _)

theorem delete_does {force : Bool} (distinct : (s.table t).Distinct) (here : t.index < s.tables.size)
    (run : t.delete name force s = (result, s')) : (delete t name force).Does s result s' := by
  rw [TableRef.delete, StoreM.bind_of_ok (StoreM.get_eq s)] at run
  cases found : (s.table t).binding? name with
  | none =>
    rw [found] at run
    cases run
    exact .refused (.absent found) rfl
  | some b =>
    rw [found] at run
    dsimp only at run
    cases force <;> cases locked : b.locked <;> rw [locked] at run <;> cases run
    · exact .rebound (.delete found (.inl locked)) (.erase here distinct)
    · exact .refused (.kept found locked) rfl
    · exact .rebound (.delete found (.inl locked)) (.erase here distinct)
    · exact .rebound (.delete found (.inr rfl)) (.erase here distinct)

/-- What an operation does, whatever it is. -/
theorem run_does {op : TableOp} (tree : s.Tree) (here : op.Within s)
    (run : op.run s = (result, s')) : op.Does s result s' := by
  cases op with
  | root name => cases run; exact .added rfl rfl
  | child p name => cases run; exact .added rfl rfl
  | boundary p name => cases run; exact .added rfl rfl
  | create t name => exact create_does (here t rfl) run
  | set t name v => exact set_does run
  | setAlways t name v => cases run; exact setAlways_does (here t rfl)
  | setConstant t name v => exact setConstant_does (here t rfl) run
  | setReadonly t name readonly => exact setReadonly_does (here t rfl) run
  | delete t name force => exact delete_does (tree.distinct t) (here t rfl) run

end TableOp

/-! ## Sequences -/

namespace Store

variable {s s' : Store}

theorem table_eq_of_tables (same : s'.tables = s.tables) (r : TableRef) :
    s'.table r = s.table r := by
  simp [table, same]

theorem table_push {t : Table} (tables : s'.tables = s.tables.push t) (r : TableRef) :
    s'.table r = if r.index = s.tables.size then t else s.table r := by
  simp only [table, tables, Array.getD_eq_getD_getElem?, Array.getElem?_push]
  split <;> rfl

namespace Tree

theorem empty (none : s.tables = #[]) : s.Tree := by
  have table (r : TableRef) : s.table r = { name := "" } := by simp [Store.table, none]
  exact
    { below := fun {r p} parent => absurd parent (by simp [table])
      top := fun {r} _ => by simp [table]
      distinct := fun r => by simp [table, Table.Distinct, Association.keys] }

theorem of_tables (h : s.Tree) (same : s'.tables = s.tables) : s'.Tree := by
  have table := table_eq_of_tables same
  exact
    { below := fun {r p} parent => by rw [table] at parent; simpa only [table] using h.below parent
      top := fun {r} none => by rw [table] at none; simpa only [table] using h.top none
      distinct := fun r => by rw [table]; exact h.distinct r }

theorem rebinds {t : TableRef} {name : String} {b : Option Binding} (h : s.Tree)
    (done : s.Rebinds s' t name b) : s'.Tree := by
  have parent (r : TableRef) : (s'.table r).parent = (s.table r).parent := by rw [done.shape]
  have root (r : TableRef) : (s'.table r).root = (s.table r).root := by rw [done.shape]
  have boundary (r : TableRef) : (s'.table r).boundary = (s.table r).boundary := by
    rw [done.shape]
  exact
    { below := fun {r p} below => by rw [root, root]; exact h.below (parent r ▸ below)
      top := fun {r} none => by rw [root, boundary]; exact h.top (parent r ▸ none)
      distinct := fun r => done.distinct (h.distinct r) }

/-- A new table has no names yet, and hangs below one that is there, if any. -/
theorem push {t : Table} (h : s.Tree) (tables : s'.tables = s.tables.push t)
    (below : ∀ p, t.parent = some p →
      p.index < s.tables.size ∧ t.root = some ((s.table p).root.getD p))
    (top : t.parent = none → t.root = none ∧ t.boundary = false) (names : t.bindings = []) :
    s'.Tree := by
  have older {r : TableRef} (inside : r.index < s.tables.size) : s'.table r = s.table r := by
    rw [table_push tables, if_neg (Nat.ne_of_lt inside)]
  refine ⟨fun {r p} parent => ?_, fun {r} none => ?_, fun r => ?_⟩
  all_goals by_cases new : r.index = s.tables.size
  · rw [table_push tables, if_pos new] at parent ⊢
    obtain ⟨inside, root⟩ := below p parent
    rw [older inside]
    exact ⟨new ▸ inside, root⟩
  · rw [table_push tables, if_neg new] at parent ⊢
    obtain ⟨before, root⟩ := h.below parent
    rw [older (before.trans (inside_of_parent parent))]
    exact ⟨before, root⟩
  · rw [table_push tables, if_pos new] at none ⊢
    exact top none
  · rw [table_push tables, if_neg new] at none ⊢
    exact h.top none
  · rw [table_push tables, if_pos new, Table.Distinct, names]
    exact List.nodup_nil
  · rw [table_push tables, if_neg new]
    exact h.distinct r

end Tree

end Store

namespace TableOp

variable {s s' : Store} {op : TableOp} {result : Except Fault Unit}

theorem Does.tree (tree : s.Tree) (here : op.Within s) (does : op.Does s result s') : s'.Tree := by
  cases does with
  | added asked tables =>
    cases op with
    | root name =>
      cases asked
      exact tree.push tables nofun (fun _ => ⟨rfl, rfl⟩) rfl
    | child p name =>
      cases asked
      exact tree.push tables (fun _ same => Option.some.inj same ▸ ⟨here p rfl, rfl⟩) nofun rfl
    | boundary p name =>
      cases asked
      exact tree.push tables (fun _ same => Option.some.inj same ▸ ⟨here p rfl, rfl⟩) nofun rfl
    | _ => cases asked
  | rebound _ done => exact tree.rebinds done
  | refused _ same => exact tree.of_tables same

/-- A locked binding stays unless its value is overwritten in any case, it is made readonly or not,
or it is removed by force. -/
theorem Does.locks {t : TableRef} {name : String} {b : Binding} (does : op.Does s result s')
    (locks : s.Locks t name b) : s'.Locks t name b ∨
      (∃ v, op = .setAlways t name v ∧ s'.Locks t name { b with value := v }) ∨
      (∃ readonly, op = .setReadonly t name readonly ∧
        (s'.table t).binding? name = some { b with readonly := readonly }) ∨
      (op = .delete t name true ∧ (s'.table t).binding? name = none) := by
  obtain ⟨found, locked⟩ := locks
  cases does with
  | added _ tables =>
    refine .inl ⟨?_, locked⟩
    rw [Store.table_push tables, if_neg (Nat.ne_of_lt (Store.inside_of_found found))]
    exact found
  | refused _ same =>
    refine .inl ⟨?_, locked⟩
    rw [Store.table_eq_of_tables same]
    exact found
  | @rebound u other _ _ asked done =>
    by_cases same : t = u ∧ name = other
    · obtain ⟨rfl, rfl⟩ := same
      have bound := done.bound
      cases asked with
      | create free | declare free => exact absurd (free.symm.trans found) nofun
      | set _ found' unlocked =>
        obtain rfl := Option.some.inj (found.symm.trans found')
        exact absurd locked (by simp [unlocked])
      | overwrite found' =>
        obtain rfl := Option.some.inj (found.symm.trans found')
        have stays : b.bound = true := by simp_all [Binding.locked]
        refine .inr (.inl ⟨_, rfl, ?_, locked⟩)
        rw [bound, stays]
      | setConstant unbound =>
        have := unbound b found
        exact absurd locked (by simp [Binding.locked, this])
      | setReadonly found' =>
        obtain rfl := Option.some.inj (found.symm.trans found')
        exact .inr (.inr (.inl ⟨_, rfl, bound⟩))
      | delete found' may =>
        obtain rfl := Option.some.inj (found.symm.trans found')
        obtain unlocked | rfl := may
        · exact absurd locked (by simp [unlocked])
        · exact .inr (.inr (.inr ⟨rfl, bound⟩))
    · refine .inl ⟨?_, locked⟩
      rw [done.others (Classical.not_and_iff_not_or_not.1 same)]
      exact found

end TableOp

/-- Stores whose tables were built by operations; other things may have been done in between. -/
inductive Scoped : Store → Prop
  | empty {s : Store} (none : s.tables = #[]) : Scoped s
  | op {s s' : Store} {result : Except Fault Unit} (before : Scoped s) (op : TableOp)
      (here : op.Within s) (run : op.run s = (result, s')) : Scoped s'
  | other {s s' : Store} (before : Scoped s) (same : s'.tables = s.tables) : Scoped s'

namespace Scoped

variable {s s' : Store}

theorem tree (h : Scoped s) : s.Tree := by
  induction h with
  | empty none => exact .empty none
  | op _ _ here run ih => exact (TableOp.run_does ih here run).tree ih here
  | other _ same ih => exact ih.of_tables same

/-- Tables are an environment of scoped names. A lookup from a table gives the binding of the
nearest table in sight, and the names in sight are those whose lookup succeeds; storing changes the
binding that a lookup gives, or fails because there is none or it is locked; whatever fails changes
no table; and a locked binding only ever gets another value by force, becomes readonly or ceases to
be, which unlocks none that is constant, or is removed by force. -/
theorem refines_environment (h : Scoped s) :
    (∀ r : TableRef, r.index < s.tables.size → ∃ l, s.Lineage r l ∧ ∀ name,
      (∀ full,
        r.resolve? s name full =
          (s.nearest? full l name).bind (fun t => (s.table t).binding? name) ∧
        (r.visibleNames s full).Nodup ∧
        (name ∈ r.visibleNames s full ↔ (r.get? s name full).isSome)) ∧
      ∀ v result s', r.set name v s = (result, s') →
        (∃ t b w, s.nearest? false l name = some t ∧ (s.table t).binding? name = some b ∧
          b.locked = false ∧ TableOp.Stored s name v w ∧ result = .ok () ∧
          s.Rebinds s' t name (some { b with value := w, bound := true })) ∨
        (∀ b, r.resolve? s name false = some b → b.locked = true) ∧
          (∃ f, result = .error f) ∧ s'.tables = s.tables) ∧
    ∀ (op : TableOp) result s', op.Within s → op.run s = (result, s') →
      (∀ f, result = .error f → s'.tables = s.tables) ∧
      ∀ t name b, s.Locks t name b →
        s'.Locks t name b ∨
        (∃ v, op = .setAlways t name v ∧ s'.Locks t name { b with value := v }) ∨
        (∃ readonly, op = .setReadonly t name readonly ∧
          (s'.table t).binding? name = some { b with readonly := readonly } ∧
          (b.constant = true → s'.Locks t name { b with readonly := readonly })) ∨
        (op = .delete t name true ∧ (s'.table t).binding? name = none) := by
  have tree := h.tree
  refine ⟨fun r _ => ?_, fun op result s' here run => ?_⟩
  · obtain ⟨l, along⟩ := tree.exists_lineage r
    refine ⟨l, along, fun name => ⟨fun full =>
      ⟨?_, TableRef.nodup_visibleNames .., TableRef.mem_visibleNames⟩, fun v result s' run => ?_⟩⟩
    · rw [TableRef.resolve?, tree.find?_eq along]
    · cases TableOp.set_does run with
      | added asked => cases asked
      | rebound asked done =>
        cases asked with
        | set resolved found unlocked stored =>
          rw [tree.find?_eq along] at resolved
          exact .inl ⟨_, _, _, resolved, found, unlocked, stored, rfl, done⟩
      | refused why same =>
        refine .inr ⟨fun b resolved => ?_, ⟨_, rfl⟩, same⟩
        cases why with
        | unseen missing => exact absurd (missing.symm.trans resolved) nofun
        | locked resolved' locked => exact Option.some.inj (resolved'.symm.trans resolved) ▸ locked
  · have does := TableOp.run_does tree here run
    refine ⟨fun f failed => ?_, fun t name b locks => ?_⟩
    · subst failed
      cases does with
      | refused _ same => exact same
    · obtain stays | overwritten | ⟨readonly, asked, found⟩ | removed := does.locks locks
      · exact .inl stays
      · exact .inr (.inl overwritten)
      · refine .inr (.inr (.inl ⟨readonly, asked, found, fun constant => ⟨found, ?_⟩⟩))
        have := locks.locked
        simp_all [Binding.locked]
      · exact .inr (.inr (.inr removed))

/-- A root and a table below it that both have a name, and a boundary below that. -/
def nested : Store :=
  { tables := #[
      { name := "root", bindings := [("x", { value := .int 1 })] },
      { name := "middle", parent := some ⟨0⟩, root := some ⟨0⟩
        bindings := [("x", { value := .int 2 })] },
      { name := "inner", parent := some ⟨1⟩, root := some ⟨0⟩, boundary := true }] }

theorem nested_scoped : Scoped nested :=
  have rooted := op (.empty (s := {}) rfl) (.root "root") nofun rfl
  have named := op rooted (.setAlways ⟨0⟩ "x" (.int 1)) (TableOp.within_of_on rfl (by decide)) rfl
  have below := op named (.child ⟨0⟩ "middle") (TableOp.within_of_on rfl (by decide)) rfl
  have shadowed := op below (.setAlways ⟨1⟩ "x" (.int 2)) (TableOp.within_of_on rfl (by decide)) rfl
  op shadowed (.boundary ⟨1⟩ "inner") (TableOp.within_of_on rfl (by decide)) rfl

/-- Below the boundary the name is the root's, and with the whole scope it is the middle table's. -/
theorem boundary_hides_middle :
    TableRef.resolve? ⟨2⟩ nested "x" false = some { value := .int 1 } ∧
    TableRef.resolve? ⟨2⟩ nested "x" true = some { value := .int 2 } := by
  obtain ⟨lookups, -⟩ := nested_scoped.refines_environment
  obtain ⟨l, along, names⟩ := lookups ⟨2⟩ (by decide)
  obtain rfl := along.unique (show nested.Lineage ⟨2⟩ [⟨2⟩, ⟨1⟩, ⟨0⟩] from
    .under rfl (.under rfl (.root rfl)))
  exact ⟨((names "x").1 false).1.trans rfl, ((names "x").1 true).1.trans rfl⟩

/-- A root with a constant. -/
def withConstant : Store :=
  { tables := #[
      { name := "root"
        bindings := [("pi", { value := .int 3, readonly := true, constant := true })] }] }

/-- A constant can be made not readonly, though it stays locked. -/
theorem constant_not_readonly : Scoped withConstant ∧
    withConstant.Locks ⟨0⟩ "pi" { value := .int 3, readonly := true, constant := true } ∧
    TableRef.isReadonly ⟨0⟩ withConstant "pi" = true ∧
    ∃ s', (TableOp.setReadonly ⟨0⟩ "pi" false).run withConstant = (.ok (), s') ∧
      s'.Locks ⟨0⟩ "pi" { value := .int 3, readonly := false, constant := true } ∧
      TableRef.isReadonly ⟨0⟩ s' "pi" = false := by
  have rooted := op (.empty (s := {}) rfl) (.root "root") nofun rfl
  have built :=
    op rooted (.setConstant ⟨0⟩ "pi" (.int 3)) (TableOp.within_of_on rfl (by decide)) rfl
  exact ⟨built, ⟨rfl, rfl⟩, rfl, _, rfl, ⟨rfl, rfl⟩, rfl⟩

end Scoped

end StackScript
