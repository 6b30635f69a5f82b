import Mathlib.Data.Fintype.Pigeonhole
import StackScript.Proofs.Debugging.Calm
import StackScript.Proofs.Debugging.Sessions
import StackScript.Proofs.Goroutines

/-!
# Chains of parents end

A field that a struct does not have is looked up in its parent, in the parent of that and so on. If
every chain of parents ends, no struct comes twice in one, so that a chain is no longer than there
are structs, and a lookup ends. A link closes no circle if the new parent does not descend from the
struct that it is given to.

Whatever the threads of a process do, no value of theirs is a struct that is not there, and every
turn links at most one struct to another one, the one that it stores under the name of the parent.
So as long as no thread stores there a struct that descends from the one it is stored in, every
chain of parents ends, and looking up a field does.

Main statements: `Store.Kin.rooted` (links that close no circle leave every chain with an end),
`Store.Rooted.looksUp` (where chains end, fields are looked up to the end), `Process.Sound.move`
(what one move keeps), `Process.Move.careful` (which moves are careful) and
`Machine.Loads.lookups_end`.
-/
namespace StackScript

namespace Store

variable {s s' : Store} {r a : StructRef}

/-! ## Ancestors -/

/-- The struct so many links above. -/
def ancestor (s : Store) : (links : Nat) → StructRef → Option StructRef
  | 0, r => some r
  | links + 1, r => (s.struct r).parent.bind (s.ancestor links)

/-- One struct is the other one, or stands under it. -/
def Descends (s : Store) (r a : StructRef) : Prop := ∃ k, s.ancestor k r = some a

/-- The chain of parents above a struct ends. -/
def Rooted (s : Store) (r : StructRef) : Prop := ∃ k, s.ancestor k r = none

/-- Every parent of a struct is there. -/
def Whole (s : Store) : Prop := ∀ r, ∀ p ∈ (s.struct r).parent, p.index < s.structs.size

theorem Clear.whole {n : Nat} (h : s.Clear n) : s.Whole := fun r p mem =>
  h.size.symm ▸ (h.struct r).parent p mem

theorem struct_parent_of_size_le (r : StructRef) (le : s.structs.size ≤ r.index) :
    (s.struct r).parent = none := by
  simp [struct, Array.getD_eq_getD_getElem?, Array.getElem?_eq_none le]

theorem ancestor_add (j k : Nat) (r : StructRef) :
    s.ancestor (j + k) r = (s.ancestor j r).bind (s.ancestor k) := by
  induction j generalizing r with
  | zero => rw [Nat.zero_add, ancestor, Option.bind_some]
  | succ j ih =>
    rw [Nat.succ_add_eq_add_succ, Nat.add_succ, ancestor, ancestor]
    cases (s.struct r).parent with
    | none => rfl
    | some p => exact ih p

/-- Above the end of a chain there is nothing. -/
theorem ancestor_of_le {j k : Nat} (ends : s.ancestor j r = none) (le : j ≤ k) :
    s.ancestor k r = none := by
  obtain ⟨more, rfl⟩ := Nat.exists_eq_add_of_le le
  rw [ancestor_add, ends, Option.bind_none]

theorem Descends.refl (r : StructRef) : s.Descends r r := ⟨0, rfl⟩

/-- What stands above the parent stands above the struct. -/
theorem Descends.under {p : StructRef} (parent : p ∈ (s.struct r).parent) (h : s.Descends p a) :
    s.Descends r a := by
  obtain ⟨k, above⟩ := h
  exact ⟨k + 1, by rw [ancestor, parent, Option.bind_some, above]⟩

/-! ## Chains that end -/

namespace Rooted

theorem of_parent (h : ∀ p ∈ (s.struct r).parent, s.Rooted p) : s.Rooted r := by
  cases parent : (s.struct r).parent with
  | none => exact ⟨1, by rw [ancestor, parent, Option.bind_none]⟩
  | some p =>
    obtain ⟨k, ends⟩ := h p parent
    exact ⟨k + 1, by rw [ancestor, parent, Option.bind_some, ends]⟩

/-- Induction along the chain, from its end. -/
theorem climb {P : StructRef → Prop} (step : ∀ r, (∀ p ∈ (s.struct r).parent, P p) → P r)
    (h : s.Rooted r) : P r := by
  obtain ⟨k, ends⟩ := h
  induction k generalizing r with
  | zero => cases ends
  | succ k ih =>
    refine step r fun p parent => ih ?_
    rwa [ancestor, parent, Option.bind_some] at ends

theorem above {k : Nat} (h : s.Rooted r) (stands : s.ancestor k r = some a) : s.Rooted a := by
  obtain ⟨j, ends⟩ := h
  refine ⟨j, ?_⟩
  have further := ancestor_of_le ends (Nat.le_add_left j k)
  rwa [ancestor_add, stands, Option.bind_some] at further

/-- No struct stands above itself. -/
theorem no_return (h : s.Rooted r) {j : Nat} (positive : 0 < j) : s.ancestor j r ≠ some r := by
  intro returns
  have again (m : Nat) : s.ancestor (j * m) r = some r := by
    induction m with
    | zero => rfl
    | succ m ih => rw [Nat.mul_succ, ancestor_add, ih, Option.bind_some, returns]
  obtain ⟨k, ends⟩ := h
  have gone := ancestor_of_le ends (Nat.le_mul_of_pos_left k positive)
  rw [again] at gone
  cases gone

/-- A chain that ends has no more structs than there are. -/
theorem ancestor_size (h : s.Rooted r) (whole : s.Whole) (there : r.index < s.structs.size) :
    s.ancestor s.structs.size r = none := by
  by_contra goesOn
  have stands (k : Fin (s.structs.size + 1)) : ∃ a, s.ancestor k r = some a :=
    Option.ne_none_iff_exists'.1 fun ends => goesOn (ancestor_of_le ends (Nat.le_of_lt_succ k.isLt))
  choose above stands using stands
  have inside (k : Fin (s.structs.size + 1)) : (above k).index < s.structs.size := by
    obtain ⟨k, bound⟩ := k
    cases k with
    | zero => exact Option.some.inj (stands ⟨0, bound⟩) ▸ there
    | succ k =>
      have last := stands ⟨k + 1, bound⟩
      rw [ancestor_add, Option.bind_eq_some_iff] at last
      obtain ⟨q, -, last⟩ := last
      rw [ancestor, Option.bind_eq_some_iff] at last
      obtain ⟨p, parent, same⟩ := last
      exact Option.some.inj same ▸ whole q p parent
  -- there are more places in the chain than structs, so two places hold the same one
  obtain ⟨i, j, differ, same⟩ := Fintype.exists_ne_map_eq_of_card_lt
    (fun k => (⟨(above k).index, inside k⟩ : Fin s.structs.size)) (by simp)
  wlog less : i < j generalizing i j
  · exact this j i differ.symm same.symm (lt_of_le_of_ne (not_lt.1 less) differ.symm)
  have twice : above i = above j := by
    cases i' : above i; cases j' : above j
    simpa [i', j'] using same
  obtain ⟨more, further⟩ := Nat.exists_eq_add_of_lt (Fin.lt_def.1 less)
  have again := stands j
  rw [further, Nat.add_assoc, ancestor_add, stands i, Option.bind_some, ← twice] at again
  exact (h.above (stands i)).no_return (Nat.succ_pos more) again

end Rooted

/-! ## Links -/

/-- Only one struct may be linked, to a parent that is there and does not descend from it. -/
structure Straight (s : Store) (L : Links) : Prop where
  single : ∀ {r r' parent parent'}, L r parent → L r' parent' → r' = r
  there : ∀ {r parent}, L r parent → ∀ p ∈ parent, p.index < s.structs.size
  apart : ∀ {r parent}, L r parent → ∀ p ∈ parent, ¬s.Descends p r

theorem Kin.rooted {L : Links} (kin : s.Kin L s') (straight : s.Straight L) (whole : s.Whole)
    (rooted : ∀ r, s.Rooted r) (r : StructRef) : s'.Rooted r := by
  -- a chain that does not come to the struct that is linked is what it was
  have beside {x : StructRef} {parent : Option StructRef} (linked : L x parent) (p : StructRef) :
      p.index < s.structs.size → ¬s.Descends p x → s'.Rooted p := by
    refine (rooted p).climb (P := fun p => p.index < s.structs.size → ¬s.Descends p x →
      s'.Rooted p) fun p ih old apart => ?_
    rcases kin.parents p with same | own | ⟨new, -⟩
    · refine .of_parent fun q mem => ?_
      rw [same] at mem
      exact ih q mem (whole p q mem) fun descends => apart (descends.under mem)
    · exact absurd (straight.single linked own ▸ .refl p) apart
    · exact absurd old (Nat.not_lt.2 new)
  have before (r : StructRef) : r.index < s.structs.size → s'.Rooted r := by
    refine (rooted r).climb (P := fun r => r.index < s.structs.size → s'.Rooted r)
      fun r ih old => ?_
    rcases kin.parents r with same | linked | ⟨new, -⟩
    · refine .of_parent fun p mem => ?_
      rw [same] at mem
      exact ih p mem (whole r p mem)
    · exact .of_parent fun p mem =>
        beside linked p (straight.there linked p mem) (straight.apart linked p mem)
    · exact absurd old (Nat.not_lt.2 new)
  -- a new struct has an older parent
  induction index : r.index using Nat.strong_induction_on generalizing r with
  | _ index ih =>
    subst index
    by_cases old : r.index < s.structs.size
    · exact before r old
    · refine .of_parent fun p mem => ?_
      rcases kin.parents r with same | linked | ⟨-, older⟩
      · rw [same, struct_parent_of_size_le r (Nat.not_lt.1 old)] at mem
        cases mem
      · exact before p (straight.there linked p mem)
      · exact ih p.index (older p mem) p rfl

/-- A parent that descends from the struct leaves its chain without an end. -/
theorem not_rooted_of_descends {p : StructRef} {o : StructObject} (there : r.index < s.structs.size)
    (parent : o.parent = some p) (descends : s.Descends p r) :
    ¬(s.modifyStruct r fun _ => o).Rooted r := by
  have own : ((s.modifyStruct r fun _ => o).struct r).parent = some p := by
    simp [struct, modifyStruct, Array.getD_eq_getD_getElem?, Array.getElem_modify, there, parent]
  have other {q : StructRef} (differ : q ≠ r) :
      (s.modifyStruct r fun _ => o).struct q = s.struct q := by
    have index : r.index ≠ q.index := fun same => differ (by cases q; cases r; cases same; rfl)
    simp [struct, modifyStruct, Array.getD_eq_getD_getElem?, Array.getElem?_modify, index]
  -- below the struct the chain is what it was
  have reaches (k : Nat) (q : StructRef) (above : s.ancestor k q = some r) :
      (s.modifyStruct r fun _ => o).Descends q r := by
    induction k generalizing q with
    | zero => exact Option.some.inj above ▸ .refl q
    | succ k ih =>
      by_cases same : q = r
      · exact same ▸ .refl q
      · obtain ⟨next, parent, above⟩ := Option.bind_eq_some_iff.1 above
        exact .under (by rw [other same]; exact parent) (ih next above)
  obtain ⟨k, above⟩ := descends
  obtain ⟨j, back⟩ := reaches k p above
  intro rooted
  refine rooted.no_return (Nat.succ_pos j) ?_
  rw [ancestor, own, Option.bind_some, back]

/-! ## Lookups -/

/-- How a field is looked up along a chain of parents: one struct after the other is asked, until
one has the field or the chain ends. -/
inductive LooksUp (s : Store) (name : String) : Option StructRef → Option Value → Prop
  | nowhere : LooksUp s name none none
  | here {r : StructRef} {v : Value} (found : Association.find? name (s.struct r).fields = some v) :
    LooksUp s name (some r) (some v)
  | above {r : StructRef} {found : Option Value}
    (missing : Association.find? name (s.struct r).fields = none)
    (rest : LooksUp s name (s.struct r).parent found) : LooksUp s name (some r) found

theorem findAbove_looksUp (name : String) {bound : Nat} (ends : s.ancestor bound r = none) :
    s.LooksUp name (some r) (StructRef.findAbove s name bound (some r)) := by
  induction bound generalizing r with
  | zero => cases ends
  | succ bound ih =>
    unfold StructRef.findAbove
    split
    · next found => exact .here found
    · next missing =>
      refine .above missing ?_
      cases parent : (s.struct r).parent with
      | none => cases bound <;> exact .nowhere
      | some p =>
        rw [ancestor, parent, Option.bind_some] at ends
        exact ih ends

/-- Where chains end, no lookup is cut off. -/
theorem Rooted.looksUp (rooted : ∀ r, s.Rooted r) (whole : s.Whole) (name : String)
    (r : StructRef) : s.LooksUp name (s.struct r).parent
      (StructRef.findAbove s name (s.structs.size + 1) (s.struct r).parent) := by
  cases parent : (s.struct r).parent with
  | none => exact .nowhere
  | some p =>
    exact findAbove_looksUp name (ancestor_of_le ((rooted p).ancestor_size whole (whole r p parent))
      (Nat.le_succ _))

end Store

/-! ## Storing a parent -/

/-- Nothing keeps a program from storing such a parent in a struct that is not readonly. -/
theorem StructRef.set_descendant {s : Store} {r p : StructRef} (there : r.index < s.structs.size)
    (writable : (s.struct r).readonly = false) (descends : s.Descends p r) :
    (r.set Reserved.parent.name (.struct p) s).1 = .ok () ∧
      ¬(r.set Reserved.parent.name (.struct p) s).2.Rooted r := by
  have stores : r.set Reserved.parent.name (.struct p) s =
      (.ok (), s.modifyStruct r fun _ => { s.struct r with parent := some p }) := by
    have stored : StructRef.stored (s.struct r) Reserved.parent.name (.struct p) =
        pure { s.struct r with parent := some p } := by
      unfold StructRef.stored
      simp [Reserved.ofName?_name, writable, setGuarded]
    unfold StructRef.set
    change (StructRef.stored (s.struct r) Reserved.parent.name (.struct p) >>= fun o =>
      (modify fun s => s.modifyStruct r fun _ => o : StoreM Unit)) s = _
    rw [stored]
    rfl
  rw [stores]
  exact ⟨rfl, Store.not_rooted_of_descends there rfl descends⟩

open Relation (ReflTransGen)

/-! ## Threads -/

namespace Thread

variable {n : Nat} {d : Debugger} {t : Thread} {s : Store} {x y : Thread × World × Store}

/-- A thread without a debugger, its world and its store are clear. -/
structure Sound (x : Thread × World × Store) : Prop where
  thread : x.1.Clear x.2.2.structs.size {}
  world : x.2.1.Clear x.2.2.structs.size
  store : x.2.2.Clear x.2.2.structs.size

theorem Clear.undisturbed (h : t.Clear n {}) (s : Store) : ¬t.context.Stops s := by
  refine Context.not_stops ?_ s
  have among : t.context.debugger ∈ t.debuggers := List.mem_cons_self
  rw [h.debuggers] at among
  rcases List.mem_append.1 among with inner | outer
  · exact List.eq_of_mem_replicate inner
  · exact List.mem_singleton.1 outer

theorem Sound.turned (h : Sound x) (turned : Turned x y) :
    Sound y ∧ x.2.2.Kin (x.1.Relinks x.2.2) y.2.2 := by
  obtain ⟨t, w, s⟩ := x
  cases turned
  have twin := turn_twin h.thread h.world h.store fun _ => h.thread.undisturbed s
  exact ⟨⟨twin.thread, twin.world, twin.store⟩, twin.kin⟩

theorem Sound.turns (h : Sound x) (made : ReflTransGen Turned x y) :
    Sound y ∧ x.2.2.structs.size ≤ y.2.2.structs.size := by
  induction made with
  | refl => exact ⟨h, Nat.le_refl _⟩
  | tail _ turned ih =>
    obtain ⟨sound, kin⟩ := ih.1.turned turned
    exact ⟨sound, ih.2.trans kin.size_le⟩

/-- The thread is about to give a struct a parent that descends from it. -/
def Closes (t : Thread) (s : Store) : Prop := ∃ r p, t.Relinks s r (some p) ∧ s.Descends p r

/-- A turn links one struct at most, to one that lies on the stack. -/
theorem Clear.straight (h : t.Clear s.structs.size d) (goesOn : ¬t.Closes s) :
    s.Straight (t.Relinks s) where
  single := by
    rintro r r' _ _ ⟨-, -, -, -, below, container, index, v, stack, links⟩
      ⟨-, -, -, -, below', container', index', v', stack', links'⟩
    have same := stack.symm.trans stack'
    simp only [Array.push_eq_push] at same
    obtain ⟨-, -, rfl, -⟩ := same
    exact Value.struct.inj (links'.1.symm.trans links.1)
  there := by
    rintro r _ ⟨-, -, -, -, below, container, index, v, stack, -, -, given⟩ p rfl
    have stacked : v.Stacked s.structs.size := h.context.stack v (stack ▸ Array.mem_push_self)
    cases v with
    | struct p' => exact Option.some.inj given ▸ stacked.ordinary (by rintro ⟨⟩)
    | _ => cases given
  apart := by
    rintro r _ links p rfl descends
    exact goesOn ⟨r, p, links, descends⟩

/-- A thread makes turns, and at none of them it gives a struct a parent that descends from it. -/
def Careful : Thread × World × Store → Thread × World × Store → Prop :=
  ReflTransGen fun x y => Turned x y ∧ ¬x.1.Closes x.2.2

theorem Sound.rooted (h : Sound x) (made : Careful x y) (rooted : ∀ r, x.2.2.Rooted r) :
    ∀ r, y.2.2.Rooted r := by
  suffices Sound y ∧ ∀ r, y.2.2.Rooted r from this.2
  induction made with
  | refl => exact ⟨h, rooted⟩
  | tail _ turned ih =>
    obtain ⟨sound, kin⟩ := ih.1.turned turned.1
    exact ⟨sound, kin.rooted (ih.1.thread.straight turned.2) ih.1.store.whole ih.2⟩

/-- Whatever a thread does at once is made of turns. -/
theorem Move.turns (m : Move x y) : ReflTransGen Turned x y := by
  cases m with
  | advance turns steps t w s => exact advance_turns t w s turns steps
  | wake blocked come => exact .single (turned_of_poll blocked come)

end Thread

/-- A thread that has been started afresh. -/
theorem Context.Fresh.thread {n : Nat} {c : Context} (h : c.Fresh n) :
    ({ context := c } : Thread).Clear n {} :=
  ⟨h.clear, List.forall_mem_nil _, trivial, h.state, congrArg (fun d => [d]) h.debugger⟩

/-! ## Processes -/

/-- The thread that runs, if there is one, is clear. -/
def Phase.Clear (n : Nat) : Phase → Prop
  | .runs _ t => t.Clear n {}
  | _ => True

theorem Phase.after_clear {n : Nat} {c : Context} {w : World} {s : Store} (hc : c.Clear n)
    (hs : s.Clear n) (callsMain inMain : Bool) (table : TableRef) (result : Except Fault Unit) :
    let (phase, s') := Phase.after callsMain table inMain c result w s
    n ≤ s'.structs.size ∧ phase.Clear s'.structs.size ∧ s'.Clear s'.structs.size := by
  obtain rfl := hs.size
  have same := And.intro (Nat.le_refl s.structs.size) (And.intro trivial hs)
  unfold after
  cases result with
  | error f => exact same
  | ok u =>
    dsimp only
    cases inMain with
    | true =>
      obtain ⟨clear, kin, -⟩ := Thread.results_calm (L := fun _ _ => False) hc s hs rfl
      exact ⟨kin.size_le, trivial, clear⟩
    | false =>
      rw [if_neg Bool.false_ne_true]
      split
      · exact same
      · split
        · exact same
        · next f found =>
          split
          · obtain ⟨fresh, store⟩ := Value.invoke_fresh (hs.get? table _ _ f found)
              (List.forall_mem_nil _) hs none (fun _ mem => by cases mem) table w
            have size := store.size
            exact ⟨size.ge, size.symm ▸ fresh.thread, size.symm ▸ store⟩
          · exact same

theorem Phase.after_structs (callsMain inMain : Bool) (table : TableRef) (c : Context)
    (result : Except Fault Unit) (w : World) (s : Store) :
    (Phase.after callsMain table inMain c result w s).2.structs = s.structs := by
  unfold after
  cases result with
  | error f => rfl
  | ok u =>
    cases inMain with
    | true =>
      change (c.results s).2.structs = s.structs
      unfold Context.results
      split <;> rfl
    | false =>
      simp only [Bool.false_eq_true, if_false]
      repeat' split
      all_goals rfl

namespace Process

variable {callsMain : Bool} {table : TableRef} {p q : Process}

/-- The threads that run. -/
def threads (p : Process) : List Thread :=
  (match p.phase with | .runs _ t => [t] | _ => []) ++ p.running.map Goroutine.thread

/-- Every thread without a debugger, the world and the store of the process are clear. -/
structure Sound (p : Process) : Prop where
  threads : ∀ t ∈ p.threads, t.Clear p.store.structs.size {}
  world : p.world.Clear p.store.structs.size
  store : p.store.Clear p.store.structs.size

theorem own_mem {inMain : Bool} {t : Thread} (here : p.phase = .runs inMain t) : t ∈ p.threads := by
  simp [threads, here]

theorem beside_mem {g : Goroutine} (mem : g ∈ p.running) : g.thread ∈ p.threads :=
  List.mem_append_right _ (List.mem_map_of_mem mem)

namespace Sound

theorem thread (h : p.Sound) {t : Thread} (mem : t ∈ p.threads) :
    Thread.Sound (t, p.world, p.store) := ⟨h.threads t mem, h.world, h.store⟩

/-- Of the threads after a move one has moved, and the others are where they were. -/
theorem moved (h : p.Sound) {x : Thread × World × Store} (sound : Thread.Sound x)
    (le : p.store.structs.size ≤ x.2.2.structs.size)
    (threads : ∀ t ∈ q.threads, t = x.1 ∨ t ∈ p.threads) (world : q.world = x.2.1)
    (store : q.store = x.2.2) : q.Sound := by
  refine ⟨fun t mem => ?_, world ▸ store ▸ sound.world, store ▸ sound.store⟩
  rw [store]
  rcases threads t mem with rfl | old
  · exact sound.thread
  · exact (h.threads t old).mono le

theorem move (h : p.Sound) (m : Move callsMain table p q) : q.Sound := by
  cases m with
  | own here moves =>
    obtain ⟨sound, le⟩ := (h.thread (own_mem here)).turns moves.turns
    refine h.moved sound le (fun t mem => ?_) rfl rfl
    rcases List.mem_append.1 mem with own | beside
    · exact .inl (List.mem_singleton.1 own)
    · exact .inr (List.mem_append_right _ beside)
  | @next inMain t result phase s here ended follows =>
    have clear := Phase.after_clear (w := p.world) (h.threads t (own_mem here)).context h.store
      callsMain inMain table result
    rw [follows] at clear
    obtain ⟨le, clear, store⟩ := clear
    refine ⟨fun t mem => ?_, h.world.mono le, store⟩
    rcases List.mem_append.1 mem with own | beside
    · cases phase with
      | runs inMain t' => exact List.mem_singleton.1 own ▸ clear
      | _ => cases own
    · exact (h.threads t (List.mem_append_right _ beside)).mono le
  | join here none =>
    exact ⟨fun t mem => h.threads t (List.mem_append_right _ mem), h.world, h.store⟩
  | @start l c s before after here invoked =>
    obtain ⟨callee, args, receiver⟩ := h.world l (by simp [here])
    obtain ⟨fresh, store⟩ :=
      Value.invoke_fresh callee args h.store l.receiver receiver p.world.root p.world
    rw [invoked] at fresh store
    have size : s.structs.size = p.store.structs.size := store.size
    refine ⟨fun t mem => ?_, fun l' mem => ?_, ?_⟩
    · rw [size]
      simp only [Process.threads, List.map_append, List.map_cons, List.map_nil, List.mem_append,
        List.mem_singleton] at mem
      rcases mem with own | beside | rfl
      · exact h.threads t (List.mem_append_left _ own)
      · exact h.threads t (List.mem_append_right _ beside)
      · exact fresh.thread
    · rw [size]
      refine h.world l' ?_
      rw [here]
      exact (List.mem_append.1 mem).elim (List.mem_append_left _) fun last =>
        List.mem_append_right _ (List.mem_cons_of_mem _ last)
    · rw [size]
      exact store
  | @beside g t w s before after here moves =>
    obtain ⟨sound, le⟩ := (h.thread (beside_mem (by simp [here]))).turns moves.turns
    refine h.moved sound le (fun t' mem => ?_) rfl rfl
    simp only [Process.threads, here, List.map_append, List.map_cons, List.mem_append,
      List.mem_cons] at mem ⊢
    tauto
  | @finish g result before after here ended =>
    refine ⟨fun t mem => h.threads t ?_, h.world, h.store⟩
    simp only [Process.threads, here, List.map_append, List.map_cons, List.mem_append,
      List.mem_cons] at mem ⊢
    tauto
  | clock time => exact ⟨h.threads, h.world, h.store⟩

end Sound

/-- What happens to the structs of a process: nothing, or what careful turns of a thread do. -/
def Careful (p q : Process) : Prop :=
  q.store.structs = p.store.structs ∨
    ∃ t ∈ p.threads, ∃ t', Thread.Careful (t, p.world, p.store) (t', q.world, q.store)

/-- A move is careful if no thread, however far it goes by itself, is about to give a struct a
parent that descends from it. -/
theorem Move.careful (m : Move callsMain table p q)
    (goesOn : ∀ t ∈ p.threads, ∀ x, ReflTransGen Thread.Turned (t, p.world, p.store) x →
      ¬x.1.Closes x.2.2) : p.Careful q := by
  have turns {t : Thread} (mem : t ∈ p.threads) {y : Thread × World × Store}
      (made : ReflTransGen Thread.Turned (t, p.world, p.store) y) :
      Thread.Careful (t, p.world, p.store) y := by
    induction made with
    | refl => exact .refl
    | tail made turned ih => exact .tail ih ⟨turned, goesOn t mem _ made⟩
  cases m with
  | own here moves => exact .inr ⟨_, own_mem here, _, turns (own_mem here) moves.turns⟩
  | @next inMain t result phase s here ended follows =>
    have same := Phase.after_structs callsMain inMain table t.context result p.world p.store
    rw [follows] at same
    exact .inl same
  | join here none => exact .inl rfl
  | start before after here invoked =>
    cases invoked
    exact .inl rfl
  | beside before after here moves =>
    have mem := beside_mem (here ▸ List.mem_append_right _ List.mem_cons_self)
    exact .inr ⟨_, mem, _, turns mem moves.turns⟩
  | finish before after here ended => exact .inl rfl
  | clock time => exact .inl rfl

theorem Sound.rooted (h : p.Sound) (careful : p.Careful q) (rooted : ∀ r, p.store.Rooted r) :
    ∀ r, q.store.Rooted r := by
  rcases careful with same | ⟨t, mem, t', made⟩
  · have none : p.store.Straight fun _ _ => False := ⟨nofun, nofun, nofun⟩
    exact (Store.Kin.of_same same).rooted none h.store.whole rooted
  · exact (h.thread mem).rooted made rooted

/-! ### Turns of the program's own thread -/

/-- A turn of the program's own thread. -/
def turn (p : Process) : Process :=
  match p.phase with
  | .runs inMain t =>
    let (t, w, s) := t.turn p.world p.store
    { p.moved w s with phase := .runs inMain t }
  | _ => p

/-- The own thread goes on, and if it is about to store a struct under an index of another one, that
has no parent itself. -/
def goesOn (p : Process) : Bool :=
  match p.phase with
  | .runs _ { context := c, signal := .runs, .. } =>
    match c.stack.toList.reverse with
    | .struct a :: _ :: .struct r :: _ => (p.store.struct a).parent.isNone && a != r
    | _ => true
  | _ => false

theorem move_turn (h : p.goesOn = true) :
    Move callsMain table p p.turn ∧ p.Careful p.turn := by
  unfold goesOn at h
  split at h
  · next inMain c k here =>
    set t : Thread := { context := c, callers := k } with thread
    have turned : p.turn = { p.moved (t.turn p.world p.store).2.1 (t.turn p.world p.store).2.2 with
        phase := .runs inMain (t.turn p.world p.store).1 } := by
      simp only [turn, here]
    rw [turned]
    refine ⟨.own here (.advance 1 1 t p.world p.store),
      .inr ⟨t, own_mem here, _, .single ⟨rfl, ?_⟩⟩⟩
    rintro ⟨r, a, ⟨-, -, -, -, below, container, index, v, stack, rfl, -, given⟩, k, above⟩
    cases v with
    | struct a' =>
      cases given
      have top : c.stack.toList.reverse =
          .struct a :: index :: .struct r :: below.toList.reverse := by
        rw [show c.stack = _ from stack]
        simp
      rw [top] at h
      obtain ⟨root, other⟩ := Bool.and_eq_true_iff.1 h
      cases k with
      | zero =>
        cases above
        simp at other
      | succ k =>
        rw [Store.ancestor, Option.isNone_iff_eq_none.1 root] at above
        cases above
    | _ => cases given
  · cases h

theorem moves_turns (turns : Nat) (h : ∀ k < turns, (turn^[k] p).goesOn = true) :
    ReflTransGen (fun p q => Move callsMain table p q ∧ p.Careful q) p (turn^[turns] p) := by
  induction turns with
  | zero => exact .refl
  | succ turns ih =>
    rw [Function.iterate_succ_apply']
    exact .tail (ih fun k less => h k (Nat.lt_succ_of_lt less))
      (move_turn (h turns (Nat.lt_succ_self turns)))

end Process

/-! ## Machines -/

namespace Machine

variable {m : Machine} {code : Code}

/-- A machine on which nothing has been run is about to run what was compiled of a source. -/
def Loads (m : Machine) (code : Code) : Prop :=
  ∃ (settings : Settings) (source : String) (compiler compiler' : Compiler), compiler.Unfailed ∧
    (CompileM.compile source).into compiler (new settings).store = (.ok code, compiler', m.store) ∧
    m.world.launched = [] ∧ m.goroutines = []

theorem Loads.makes (h : m.Loads code) :
    Store.Makes {} m.store ∧ code.Clear m.store.structs.size := by
  obtain ⟨settings, source, compiler, compiler', unfailed, compiled, -⟩ := h
  have made := new_makes settings
  obtain ⟨store, -, clear⟩ := CompileM.into_clear made.clear unfailed.loops
    fun _ _ => CompileM.compile_leads source
  -- compiling adds units to the store, and nothing else
  have same : ((CompileM.compile source).into compiler (new settings).store).2.2.structs =
      (new settings).store.structs := rfl
  rw [compiled] at store clear same
  have made : Store.Makes {} m.store :=
    ⟨store.size.symm ▸ store, fun L => (made.kin L).trans (.of_same same)⟩
  exact ⟨made, store.size.symm ▸ clear code rfl⟩

theorem Loads.sound (h : m.Loads code) : (m.process code).Sound := by
  obtain ⟨made, code⟩ := h.makes
  obtain ⟨-, -, -, -, -, -, launched, idle⟩ := h
  have store := (made.clear.newBelow m.root mainName false).newCode code
  refine ⟨fun t mem => ?_, fun l mem => ?_, store⟩
  · rcases List.mem_append.1 mem with own | beside
    · exact List.mem_singleton.1 own ▸ (Context.new_fresh _ _ _ _).thread
    · rw [show (m.process _).running = m.goroutines.map _ from rfl, idle] at beside
      cases beside
  · rw [show (m.process _).world.launched = m.world.launched from rfl, launched] at mem
    cases mem

theorem Loads.rooted (h : m.Loads code) : ∀ r, (m.process code).store.Rooted r := by
  have made : Store.Kin (fun _ _ => False) {} (m.process code).store :=
    (h.makes.1.kin _).trans (.of_same rfl)
  have straight : Store.Straight {} fun _ _ => False := ⟨nofun, nofun, nofun⟩
  refine made.rooted straight Store.Clear.empty.whole fun r => .of_parent fun p mem => ?_
  rw [Store.struct_parent_of_size_le r (Nat.zero_le _)] at mem
  cases mem

/-- Looking up a field ends. As long as no thread of a compiled program gives a struct a parent that
descends from it, every chain of parents ends after no more structs than there are, and what is
found for a name, in the struct or in the nearest ancestor that has it, is what asking one after the
other finds. -/
theorem Loads.lookups_end (loads : m.Loads code) {callsMain : Bool} {q : Process}
    (run : ReflTransGen (fun p q => Process.Move callsMain m.newMainTable.1 p q ∧ p.Careful q)
      (m.process code) q) (r : StructRef) :
    q.store.ancestor (q.store.structs.size + 1) r = none ∧
    ∀ name, ∃ found, q.store.LooksUp name (q.store.struct r).parent found ∧
      StructRef.getInherited? q.store (q.store.struct r) name =
        ((q.store.struct r).get? name).or found := by
  obtain ⟨sound, rooted⟩ : q.Sound ∧ ∀ r, q.store.Rooted r := by
    induction run with
    | refl => exact ⟨loads.sound, loads.rooted⟩
    | tail _ m ih => exact ⟨ih.1.move m.1, ih.1.rooted m.2 ih.2⟩
  have whole := sound.store.whole
  refine ⟨?_, fun name => ⟨_, Store.Rooted.looksUp rooted whole name r, rfl⟩⟩
  by_cases there : r.index < q.store.structs.size
  · exact Store.ancestor_of_le ((rooted r).ancestor_size whole there) (Nat.le_succ _)
  · rw [Store.ancestor, Store.struct_parent_of_size_le r (Nat.not_lt.1 there), Option.bind_none]

/-- What `a := {}` and `a.__parent = {x: 1}` compile to. -/
def adopting : Code where
  name := "main"
  instructions := #[⟨.atLine, .int 1⟩, ⟨.struct, .int 0⟩, ⟨.symbolCreate, .name "a"⟩,
    ⟨.store, .name "a"⟩, ⟨.atLine, .int 2⟩, ⟨.push, .value (.string "x")⟩, ⟨.push, .value (.int 1)⟩,
    ⟨.struct, .int 1⟩, ⟨.load, .name "a"⟩, ⟨.push, .value (.string "__parent")⟩,
    ⟨.readStack, .int 2⟩, ⟨.storeIndex, .none⟩, ⟨.drop, .int 2⟩]
  capacity := 13
  isSealed := true

/-- The program runs to its end. -/
def adopted : Process := Process.turn^[14] ((new {}).process adopting)

/-- The source has no bodies. No turn of the program is its last, and what the last one leaves. -/
theorem adopting_runs :
    ((CompileM.compile "a := \x7b\x7d\na.__parent = \x7bx: 1\x7d").run.run
      (.new "main" {})).2.codes.size = 0 ∧
    (∀ k < 14, (Process.turn^[k] ((new {}).process adopting)).goesOn = true) ∧
    (adopted.phase matches .runs false { signal := .ended (.ok ()), .. }) = true ∧
    (adopted.store.struct ⟨10⟩).parent = some ⟨11⟩ ∧
    ((adopted.store.struct ⟨10⟩).get? "x").isNone = true ∧
    (StructRef.getInherited? adopted.store (adopted.store.struct ⟨10⟩) "x").bind Value.asInt? =
      some 1 := by decide +kernel

theorem adopting_loads : (new {}).Loads adopting := by
  have code : ((CompileM.compile "a := \x7b\x7d\na.__parent = \x7bx: 1\x7d").run.run
    (.new "main" {})).1 = .ok adopting := CompileM.compile_of_agrees (by decide +kernel)
  have codes : ((CompileM.compile "a := \x7b\x7d\na.__parent = \x7bx: 1\x7d").run.run
    (.new "main" {})).2.codes = #[] := Array.eq_empty_of_size_eq_zero adopting_runs.1
  obtain ⟨compiler', compiled⟩ := CompileM.into_new code codes
  exact ⟨{}, _, .new "main" {}, compiler', .new _ _, compiled, rfl, rfl⟩

theorem adopted_looks_up :
    ReflTransGen (fun p q => Process.Move true (new {}).newMainTable.1 p q ∧ p.Careful q)
      ((new {}).process adopting) adopted ∧
    adopted.phase matches .runs false { signal := .ended (.ok ()), .. } ∧
    (adopted.store.struct ⟨10⟩).parent = some ⟨11⟩ ∧
    adopted.store.ancestor (adopted.store.structs.size + 1) ⟨10⟩ = none ∧
    ∃ found, adopted.store.LooksUp "x" (some ⟨11⟩) found ∧ found.bind Value.asInt? = some 1 := by
  obtain ⟨-, goesOn, ended, parent, own, reads⟩ := adopting_runs
  have run : ReflTransGen (fun p q => Process.Move true (new {}).newMainTable.1 p q ∧ p.Careful q)
      ((new {}).process adopting) adopted := Process.moves_turns 14 goesOn
  obtain ⟨ends, lookups⟩ := adopting_loads.lookups_end run ⟨10⟩
  obtain ⟨found, looks, same⟩ := lookups "x"
  rw [parent] at looks
  rw [same, Option.isNone_iff_eq_none.1 own, Option.none_or] at reads
  exact ⟨run, ended, parent, ends, found, looks, reads⟩

end Machine

end StackScript
