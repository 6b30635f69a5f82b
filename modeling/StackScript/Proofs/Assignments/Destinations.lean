import Mathlib.Tactic.Choose
import Mathlib.Tactic.Tauto
import StackScript.Proofs.Sparing
import StackScript.Proofs.Statements.Interpreter
import StackScript.Proofs.Scopes

/-!
# Where assignments store

An assignment stores under a name, or as a part of a container that a name leads to through indices
and fields. An interpreter on trees says what reading and storing a part comes to: the container and
the last step are evaluated whenever the part is read and whenever it is stored.

Main statements: `Element.load_sparing` and `Element.store_sparing` (names and units stay), and
`lookup_ofTables` (a variable is the same when it is read again).
-/
namespace StackScript

open StoreM (Sparing)

/-! ## Trees -/

/-- A step from a value to a part of it. -/
inductive Part where
  | index (e : Expr)
  | field (name : String)

/-- A part of a container, which steps from the value of a name lead to. -/
structure Element where
  name : String
  steps : List Part
  last : Part

/-! ## Reading and storing -/

/-- The part of a value that a step leads to. -/
def Part.take (σ : Setting) (v : Value) : Part → StoreM Value
  | .index e => do onOperands Aggregate.item v (← e.eval σ)
  | .field name => do Aggregate.member (← v.unchanged) (σ.spell name) false

/-- The index that a step stands for when a part is read or stored under it. -/
def Part.key (σ : Setting) : Part → StoreM Value
  | .index e => e.eval σ
  | .field name => pure (.string (σ.spell name))

/-- The value that steps lead to, the first one first. -/
def follow (σ : Setting) : List Part → Value → StoreM Value
  | [], v => pure v
  | p :: ps, v => do follow σ ps (← p.take σ v)

/-- Store a part under an index of a container; the part is looked at first. -/
def storePart (container key v : Value) : StoreM Unit := do
  let v ← v.unchanged
  let key ← key.unchanged
  let container ← container.unchanged
  Aggregate.setItem container key v

namespace Element

/-- The container of an element. -/
def container (σ : Setting) (d : Element) : StoreM Value := do
  follow σ d.steps (← lookup σ.table (σ.spell d.name))

/-- The container of an element and the index in it. -/
def parts (σ : Setting) (d : Element) : StoreM (Value × Value) := do
  let container ← d.container σ
  let key ← d.last.key σ
  pure (container, key)

/-- Read an element. -/
def load (σ : Setting) (d : Element) : StoreM Value := do
  let (container, key) ← d.parts σ
  onOperands Aggregate.item container key

/-- Store an element. -/
def store (σ : Setting) (d : Element) (v : Value) : StoreM Unit := do
  let (container, key) ← d.parts σ
  storePart container key v

end Element

/-! ## The store -/

theorem onOperands_sparing {f : Value → Value → StoreM Value} (hf : ∀ x y, Sparing (f x y))
    (x y : Value) : Sparing (onOperands f x y) := onOperands_within Store.spares_addsObjects hf x y

theorem lookup_sparing (table : TableRef) (name : String) : Sparing (lookup table name) :=
  .bind .get fun s => by
    split
    · exact .pure _
    · exact .throw rfl

theorem Expr.eval_sparing (σ : Setting) (e : Expr) : Sparing (e.eval σ) :=
  e.eval_within Store.spares_addsObjects σ

theorem unchanged_sparing (v : Value) : Sparing v.unchanged :=
  Value.unchanged_within Store.spares_addsObjects v

theorem Part.take_sparing (σ : Setting) (v : Value) (p : Part) : Sparing (p.take σ v) := by
  cases p with
  | index e => exact .bind (e.eval_sparing σ) fun _ => onOperands_sparing Aggregate.item_sparing _ _
  | field name => exact .bind (unchanged_sparing v) fun _ => Aggregate.member_sparing _ _ _

theorem Part.key_sparing (σ : Setting) (p : Part) : Sparing (p.key σ) := by
  cases p with
  | index e => exact e.eval_sparing σ
  | field name => exact .pure _

theorem follow_sparing (σ : Setting) (ps : List Part) (v : Value) : Sparing (follow σ ps v) := by
  induction ps generalizing v with
  | nil => exact .pure v
  | cons p ps ih => exact .bind (p.take_sparing σ v) ih

theorem storePart_sparing (container key v : Value) : Sparing (storePart container key v) :=
  .bind (unchanged_sparing v) fun _ => .bind (unchanged_sparing key) fun _ =>
    .bind (unchanged_sparing container) fun _ => Aggregate.setItem_sparing _ _ _

namespace Element

variable (σ : Setting) (d : Element)

theorem container_sparing : Sparing (d.container σ) :=
  .bind (lookup_sparing _ _) (follow_sparing σ d.steps)

theorem parts_sparing : Sparing (d.parts σ) :=
  .bind (d.container_sparing σ) fun _ => .bind (d.last.key_sparing σ) fun _ => .pure _

theorem load_sparing : Sparing (d.load σ) :=
  .bind (d.parts_sparing σ) fun _ => onOperands_sparing Aggregate.item_sparing _ _

theorem store_sparing (v : Value) : Sparing (d.store σ v) :=
  .bind (d.parts_sparing σ) fun _ => storePart_sparing _ _ _

end Element

/-! ## Reading again -/

/-- A step that is read from names and literals alone. -/
def Part.Plain : Part → Prop
  | .index (.literal _) | .index (.name _) | .field _ => True
  | _ => False

/-- A computation that looks at nothing but tables of names, and changes nothing. -/
def OfTables {α : Type} (m : StoreM α) : Prop :=
  ∃ f : Array Table → Except Fault α, ∀ s, m s = (f s.tables, s)

theorem OfTables.pure {α : Type} (a : α) : OfTables (Pure.pure a : StoreM α) :=
  ⟨fun _ => .ok a, fun _ => rfl⟩

theorem OfTables.bind {α β : Type} {m : StoreM α} {f : α → StoreM β} (hm : OfTables m)
    (hf : ∀ a, OfTables (f a)) : OfTables (m >>= f) := by
  obtain ⟨g, hg⟩ := hm
  choose k hk using hf
  refine ⟨fun tables => g tables >>= fun a => k a tables, fun s => ?_⟩
  have first := hg s
  dsimp only
  cases known : g s.tables with
  | error e =>
    rw [known] at first
    exact StoreM.bind_of_error first
  | ok a =>
    rw [known] at first
    exact (StoreM.bind_of_ok first).trans (hk a s)

/-- Between two computations that look at nothing but tables, no change to other things matters. -/
theorem OfTables.again {α β γ : Type} {m : StoreM α} (hm : OfTables m) {f : α → StoreM β}
    (keeps : ∀ a s, ((f a) s).2.tables = s.tables) (g : α → β → StoreM γ) :
    (do let a ← m; let b ← f a; let a ← m; g a b) = (do let a ← m; let b ← f a; g a b) := by
  obtain ⟨k, hk⟩ := hm
  funext s
  have first := hk s
  cases known : k s.tables with
  | error e =>
    rw [known] at first
    exact (StoreM.bind_of_error first).trans (StoreM.bind_of_error first).symm
  | ok a =>
    rw [known] at first
    refine (StoreM.bind_of_ok first).trans (Eq.trans ?_ (StoreM.bind_of_ok first).symm)
    have kept := keeps a s
    rcases done : f a s with ⟨r, s'⟩
    rw [done] at kept
    cases r with
    | error e => exact (StoreM.bind_of_error done).trans (StoreM.bind_of_error done).symm
    | ok b =>
      have again := hk s'
      rw [kept, known] at again
      refine (StoreM.bind_of_ok done).trans (Eq.trans ?_ (StoreM.bind_of_ok done).symm)
      exact StoreM.bind_of_ok again

theorem findTo_of_tables {s s' : Store} (same : s'.tables = s.tables) (name : String) (bound : Nat)
    (r : TableRef) : r.findTo s' false name bound = r.findTo s false name bound := by
  induction bound generalizing r with
  | zero => rfl
  | succ bound ih =>
    simp only [TableRef.findTo, Store.table, same, ih]
    rfl

theorem lookup_ofTables (table : TableRef) (name : String) : OfTables (lookup table name) := by
  refine ⟨fun tables => (lookup table name { tables := tables }).1, fun s => ?_⟩
  have same : table.get? { tables := s.tables } name false = table.get? s name false := by
    simp only [TableRef.get?, TableRef.resolve?, TableRef.find?,
      @findTo_of_tables s { tables := s.tables } rfl]
    rfl
  unfold lookup
  dsimp only
  rw [StoreM.bind_of_ok (StoreM.get_eq s), StoreM.bind_of_ok (StoreM.get_eq _), same]
  cases table.get? s name false <;> rfl

theorem Part.key_ofTables {p : Part} (plain : p.Plain) (σ : Setting) : OfTables (p.key σ) := by
  obtain (_ | _ | _) | name := p <;> first
    | exact plain.elim
    | exact .pure _
    | exact lookup_ofTables _ _

/-- An item of a variable under an index that is read from a name or a literal alone, or a field of
a variable. -/
def Element.Plain (d : Element) : Prop := d.steps = [] ∧ d.last.Plain

theorem Element.parts_ofTables {d : Element} (plain : d.Plain) (σ : Setting) :
    OfTables (d.parts σ) := by
  have container : OfTables (d.container σ) := by
    rw [Element.container, plain.1]
    exact .bind (lookup_ofTables _ _) fun v => .pure v
  exact .bind container fun _ => .bind (Part.key_ofTables plain.2 σ) fun _ => .pure _

/-!
## The order of stores

Storing under two different names comes to the same in either order, and so does storing under any
number of different names in any order: it succeeds in one order if it does in the other, and the
store is the same then. Names that start with an underscore are left out, since what is stored under
them is a copy.

Main statements: `TableRef.set_swap` and `bindAll_perm`.
-/

/-! ## Bindings -/

/-- Overwriting keys that are there comes to the same in either order. -/
theorem Association.insert_comm {α β : Type} [BEq α] [LawfulBEq α] {a b : α} (apart : a ≠ b) (v w : β)
    {entries : List (α × β)} (first : has a entries) (second : has b entries) :
    insert a v (insert b w entries) = insert b w (insert a v entries) := by
  induction entries with
  | nil => cases first
  | cons e rest ih =>
    obtain ⟨k, u⟩ := e
    simp only [has, List.any_cons, Bool.or_eq_true, beq_iff_eq] at first second
    by_cases isFirst : k = a
    · subst isFirst
      simp [insert, apart]
    · by_cases isSecond : k = b
      · subst isSecond
        simp [insert, Ne.symm apart]
      · have := ih (by simpa [has] using first.resolve_left isFirst)
          (by simpa [has] using second.resolve_left isSecond)
        simp [insert, isFirst, isSecond, this]

/-- Binding names that are there anew comes to the same in either order. -/
theorem Table.bind_comm {t : Table} {x y : String} (apart : x ≠ y) {a b : Binding}
    (first : t.binding? x = some a) (second : t.binding? y = some b) (a' b' : Binding) :
    (t.bind y b').bind x a' = (t.bind x a').bind y b' := by
  have has {name : String} {b : Binding} (found : t.binding? name = some b) :
      Association.has name t.bindings := by
    rw [← Association.find?_isSome]
    exact Option.isSome_iff_exists.2 ⟨b, found⟩
  simp only [bind, Association.insert_comm apart a' b' (has first) (has second)]

/-- Binding names that are there anew comes to the same in either order, also in different tables. -/
theorem Store.modifyTable_comm (s : Store) {t u : TableRef} {x y : String} (apart : x ≠ y)
    {a b : Binding} (first : (s.table t).binding? x = some a)
    (second : (s.table u).binding? y = some b) (a' b' : Binding) :
    (s.modifyTable t (·.bind x a')).modifyTable u (·.bind y b') =
      (s.modifyTable u (·.bind y b')).modifyTable t (·.bind x a') := by
  have there := inside_of_found first
  have there' := inside_of_found second
  simp only [modifyTable]
  congr 1
  refine Array.ext_getElem? fun i => ?_
  simp only [Array.getElem?_modify]
  by_cases same : t.index = i
  · by_cases same' : u.index = i
    · obtain rfl : t = u := by cases t; cases u; simp_all
      have found : s.tables[i]? = some (s.table t) := by
        rw [← same, Store.table, Array.getD_eq_getD_getElem?, Array.getElem?_eq_getElem there]
        rfl
      simp [same, found, Table.bind_comm apart first second]
    · simp [same, same']
  · by_cases same' : u.index = i <;> simp [same, same']

/-! ## Names -/

namespace Store.Rebinds

variable {s s' : Store} {t : TableRef} {name : String} {b b' : Binding}

/-- A name that is there and bound anew is found where it was, as all others are. -/
theorem find?_eq (h : s.Rebinds s' t name (some b')) (found : (s.table t).binding? name = some b)
    (r : TableRef) (other : String) (full : Bool) : r.find? s' other full = r.find? s other full := by
  have binds (r : TableRef) : (s'.table r).binds other = (s.table r).binds other := by
    rw [Table.binds_eq, Table.binds_eq]
    by_cases same : r = t ∧ other = name
    · obtain ⟨rfl, rfl⟩ := same
      rw [h.bound, found]
      rfl
    · rw [h.others (by tauto)]
  have next (r : TableRef) : (s'.table r).next full = (s.table r).next full := by
    rw [h.shape r]
    rfl
  unfold TableRef.find?
  generalize r.index + 1 = bound
  induction bound generalizing r with
  | zero => rfl
  | succ bound ih => simp only [TableRef.findTo, binds, next, ih]

end Store.Rebinds

/-- A value is stored under a name, as it is, where a lookup finds the name. -/
inductive Store.Sets (s : Store) (r : TableRef) (name : String) (v : Value) : Store → Prop
  | intro {t : TableRef} {b : Binding} (resolved : r.find? s name false = some t)
      (found : (s.table t).binding? name = some b) (unlocked : b.locked = false) :
      Sets s r name v (s.modifyTable t (·.bind name { b with value := v, bound := true }))

namespace TableRef

variable {r : TableRef} {name x y : String} {v w : Value} {s s' : Store}

theorem set_ok (free : isPrivate name = false) :
    r.set name v s = (.ok (), s') ↔ s.Sets r name v s' := by
  rw [TableRef.set, StoreM.bind_of_ok (StoreM.get_eq s)]
  constructor
  · intro done
    cases resolved : r.find? s name false with
    | none =>
      rw [resolved] at done
      cases done
    | some t =>
      obtain ⟨b, found⟩ := found_of_find? resolved
      rw [resolved] at done
      dsimp only at done
      rw [StoreM.bind_of_ok (StoreM.get_eq s), found] at done
      dsimp only at done
      rw [free] at done
      split at done
      · cases done
      · next unlocked =>
        cases done
        exact .intro resolved found (by simpa using unlocked)
  · rintro ⟨resolved, found, unlocked⟩
    rw [resolved]
    dsimp only
    rw [StoreM.bind_of_ok (StoreM.get_eq s), found]
    dsimp only
    rw [unlocked, free]
    rfl

/-- Stores under two names that succeed one after the other succeed in the other order too. -/
theorem set_swap (apart : x ≠ y) {s₁ s₂ : Store} (first : s.Sets r x v s₁)
    (second : s₁.Sets r y w s₂) :
    ∃ s₃, s.Sets r y w s₃ ∧ s₃.Sets r x v s₂ := by
  obtain @⟨t, b, resolved, found, unlocked⟩ := first
  obtain @⟨u, b', resolved', found', unlocked'⟩ := second
  have bound := @Store.Rebinds.bind s t x (Store.inside_of_found found)
    { b with value := v, bound := true }
  -- the second name is found where it was before the first store
  rw [bound.find?_eq found] at resolved'
  rw [bound.others (.inr apart.symm)] at found'
  have bound' := @Store.Rebinds.bind s u y (Store.inside_of_found found')
    { b' with value := w, bound := true }
  refine ⟨_, .intro resolved' found' unlocked', ?_⟩
  rw [s.modifyTable_comm apart found found']
  exact .intro (by rwa [bound'.find?_eq found']) (by rwa [bound'.others (.inr apart)]) unlocked

end TableRef

/-! ## Many names -/

/-- Give names of a table that are there their values, the first one first. -/
def bindAll (table : TableRef) : List (String × Value) → StoreM Unit
  | [] => pure ()
  | (name, v) :: rest => do
    bindName table false name v
    bindAll table rest

/-- Names that values are stored under as they are. -/
def Plainly (name : String) : Prop := name = "_" ∨ isPrivate name = false

/-- Two names that no value is stored under both of. -/
def Apart (x y : String) : Prop := x = "_" ∨ x ≠ y

theorem Apart.symm {x y : String} (h : Apart x y) : Apart y x := by
  rcases h with rfl | h
  · exact (em (y = "_")).imp id fun ne => ne
  · exact .inr h.symm

variable {table : TableRef} {s s' : Store}

/-- A value that is no marker is stored under a name; every value is dropped under `_`. -/
theorem bindName_ok {name : String} {v : Value} (plainly : Plainly name) :
    bindName table false name v s = (.ok (), s') ↔
      if name = "_" then s' = s else v.isMarker = false ∧ s.Sets table name v s' := by
  unfold bindName
  by_cases blank : name = "_"
  · rw [if_pos blank, if_pos blank]
    exact ⟨fun done => by cases done; rfl, fun same => same ▸ rfl⟩
  · rw [if_neg blank, if_neg blank, ← TableRef.set_ok (plainly.resolve_left blank)]
    cases marked : v.isMarker with
    | true =>
      have fails : v.unchanged = throw (.of .voidReturn) := by simp [Value.unchanged, marked]
      rw [fails]
      exact ⟨fun done => (by cases done), fun h => (by cases h.1)⟩
    | false => simp [Value.unchanged, marked]

theorem bindName_swap {x y : String} {v w : Value} {s₁ s₂ : Store} (apart : Apart x y)
    (px : Plainly x) (py : Plainly y) (first : bindName table false x v s = (.ok (), s₁))
    (second : bindName table false y w s₁ = (.ok (), s₂)) :
    ∃ s₃, bindName table false y w s = (.ok (), s₃) ∧ bindName table false x v s₃ = (.ok (), s₂) := by
  rw [bindName_ok px] at first
  rw [bindName_ok py] at second
  by_cases blank : x = "_"
  · rw [if_pos blank] at first
    subst first
    exact ⟨s₂, (bindName_ok py).2 second, (bindName_ok px).2 (by rw [if_pos blank])⟩
  · by_cases blank' : y = "_"
    · rw [if_pos blank'] at second
      subst second
      exact ⟨s, (bindName_ok py).2 (by rw [if_pos blank']), (bindName_ok px).2 first⟩
    · rw [if_neg blank] at first
      rw [if_neg blank'] at second
      obtain ⟨s₃, one, two⟩ := TableRef.set_swap (apart.resolve_left blank) first.2 second.2
      refine ⟨s₃, (bindName_ok py).2 ?_, (bindName_ok px).2 ?_⟩
      · rw [if_neg blank']
        exact ⟨second.1, one⟩
      · rw [if_neg blank]
        exact ⟨first.1, two⟩

theorem bindAll_cons {p : String × Value} {l : List (String × Value)} :
    bindAll table (p :: l) s = (.ok (), s') ↔
      ∃ s₁, bindName table false p.1 p.2 s = (.ok (), s₁) ∧ bindAll table l s₁ = (.ok (), s') := by
  constructor
  · intro done
    obtain ⟨_, s₁, first, rest⟩ := StoreM.bind_ok done
    exact ⟨s₁, first, rest⟩
  · rintro ⟨s₁, first, rest⟩
    exact (StoreM.bind_of_ok first).trans rest

/-- Values are stored under different names in any order. -/
theorem bindAll_perm {l l' : List (String × Value)} (perm : l.Perm l')
    (plainly : ∀ p ∈ l, Plainly p.1) (apart : l.Pairwise fun p q => Apart p.1 q.1) :
    bindAll table l s = (.ok (), s') ↔ bindAll table l' s = (.ok (), s') := by
  induction perm generalizing s with
  | nil => rfl
  | cons p _ ih =>
    obtain ⟨-, plainly⟩ := List.forall_mem_cons.1 plainly
    rw [bindAll_cons, bindAll_cons]
    exact exists_congr fun s₁ => and_congr_right fun _ => ih plainly (List.pairwise_cons.1 apart).2
  | swap p q l =>
    obtain ⟨pq, plainly⟩ := List.forall_mem_cons.1 plainly
    obtain ⟨pp, -⟩ := List.forall_mem_cons.1 plainly
    have ne := (List.pairwise_cons.1 apart).1 p (by simp)
    simp only [bindAll_cons]
    constructor
    · rintro ⟨s₁, first, s₂, second, rest⟩
      obtain ⟨s₃, one, two⟩ := bindName_swap ne pq pp first second
      exact ⟨s₃, one, s₂, two, rest⟩
    · rintro ⟨s₁, first, s₂, second, rest⟩
      obtain ⟨s₃, one, two⟩ := bindName_swap ne.symm pp pq first second
      exact ⟨s₃, one, s₂, two, rest⟩
  | trans first _ ih ih' =>
    refine (ih plainly apart).trans (ih' (fun p mem => plainly p (first.mem_iff.2 mem)) ?_)
    exact (first.pairwise_iff fun h => Apart.symm h).1 apart

end StackScript
