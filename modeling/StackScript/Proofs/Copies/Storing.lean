import StackScript.Proofs.Copies.Copying
import StackScript.Proofs.Copies.Conversions

/-!
# Stores through a copy

A store puts a conversion of the stored value in place of one part of one object. If neither the
object nor the stored value reaches what another value reaches, that other value keeps everything
that it reaches, and stays out of reach.

Main statements: `Aggregate.setItem_puts` (what a store changes), `Stores.keeps` (what a sequence of
stores leaves alone) and `Value.copy_equal_and_apart`.
-/
namespace StackScript

open Store (Guarded Avoids Keeps)
open StoreM (Gives)

variable {α : Type} {s t u : Store} {v w x : Value} {p q : Place} {K : Place → Prop}

/-! ## What a store changes -/

/-- After the computation objects have been added at most, and then the object at `p` replaced by one
whose parts were there before or avoid `K`. -/
def StoreM.Puts (K : Place → Prop) (p : Place) (s : Store) (m : StoreM α) : Prop :=
  ∃ t, s.GrowsTo t ∧ ((m s).2 = t ∨
    ∃ o : Aggregated, (∀ w ∈ o.parts, w ∈ t.parts p ∨ Avoids K t w) ∧ (m s).2 = t.replace p o)

open StoreM (Puts)

namespace StoreM.Puts

variable {β : Type} {m : StoreM α} {f : α → StoreM β} {P : Store → α → Prop} {a : α}

theorem of_within (h : Within Store.GrowsTo m) : Puts K p s m := ⟨_, h.store s, .inl rfl⟩

theorem bind (first : Within Store.GrowsTo m) (given : Gives s m P)
    (rest : ∀ a t, s.GrowsTo t → P t a → Puts K p t (f a)) : Puts K p s (m >>= f) := by
  rcases run : m s with ⟨r, t⟩
  have more := first.store s
  rw [run] at more
  cases r with
  | error e => exact ⟨t, more, .inl (by rw [bind_of_error run])⟩
  | ok a =>
    obtain ⟨u, more', put⟩ := rest a t more (given a t run).2
    exact ⟨u, more.trans more', by rwa [bind_of_ok run]⟩

theorem of_run (run : m s = (.ok a, s)) (h : Puts K p s (f a)) : Puts K p s (m >>= f) := by
  unfold Puts
  rwa [bind_of_ok run]

theorem get_bind {f : Store → StoreM β} (h : Puts K p s (f s)) : Puts K p s (get >>= f) :=
  of_run (get_eq s) h

theorem ite {c : Prop} [Decidable c] {yes no : StoreM α} (hyes : Puts K p s yes)
    (hno : Puts K p s no) : Puts K p s (if c then yes else no) := by
  split
  · exact hyes
  · exact hno

theorem of_modify {f : Store → Store} {o : Aggregated} (replaces : f s = s.replace p o)
    (parts : ∀ w ∈ o.parts, w ∈ s.parts p ∨ Avoids K s w) : Puts K p s (modify f : StoreM Unit) :=
  ⟨s, .refl s, .inr ⟨o, parts, replaces⟩⟩

end StoreM.Puts

theorem Array.modify_const (items : Array α) (i : Nat) (f : α → α) (default : α) :
    (items.modify i fun _ => f (items.getD i default)) = items.modify i f := by
  refine Array.ext (by simp) fun j _ bound => ?_
  rw [Array.size_modify] at bound
  rw [Array.getElem_modify, Array.getElem_modify]
  split
  · next same =>
    subst same
    simp [Array.getD_eq_getD_getElem?, bound]
  · rfl

namespace Store

theorem replace_array (s : Store) (r : ArrayRef) (f : ArrayObject → ArrayObject) :
    s.modifyArray r f = s.replace (.array r) (.array (f (s.array r))) := by
  rw [replace, modifyArray, modifyArray, array, Array.modify_const]

theorem replace_map (s : Store) (r : MapRef) (f : MapObject → MapObject) :
    s.modifyMap r f = s.replace (.map r) (.map (f (s.map r))) := by
  rw [replace, modifyMap, modifyMap, map, Array.modify_const]

end Store

/-! ## Single stores -/

section

variable (guarded : Guarded K s) (hx : Avoids K s x)
include guarded hx

theorem MapRef.set_puts (r : MapRef) (k : Value) : Puts K (.map r) s (r.set k x) := by
  have adds := Store.addsObjects_keeps fun _ => True
  refine .get_bind (.ite (.of_within (.bind adds (.get adds) fun _ => .throw adds rfl)) ?_)
  refine .bind (r.key_within adds k) (.of_within (r.key_within adds k)) fun key t more _ => ?_
  refine .bind (Value.coerce_within adds _ _)
    (Value.coerce_avoids (guarded.later more) (hx.extended more) _) fun v u _ made => ?_
  refine .of_modify (u.replace_map r _) fun w mem => ?_
  obtain ⟨e, inside, rfl⟩ := List.mem_map.1 mem
  exact Association.forall_insert (P := fun w => w ∈ u.parts (.map r) ∨ Avoids K u w)
    (fun e mem => .inl (List.mem_map_of_mem mem)) (.inr made) e inside

theorem StructRef.stored_gives (o : StructObject) (name : String) :
    Gives s (stored o name x) fun t o' =>
      ∀ e ∈ o'.fields, e.2 ∈ o.fields.map Prod.snd ∨ Avoids K t e.2 := by
  have same (t : Store) : ∀ e ∈ o.fields, e.2 ∈ o.fields.map Prod.snd ∨ Avoids K t e.2 :=
    fun e mem => .inl (List.mem_map_of_mem mem)
  have conform : Gives s (conformField o name x) (Avoids K) := by
    unfold conformField
    split
    · exact .pure hx
    · split
      · exact Value.coerce_avoids guarded hx _
      · exact .ite (.pure hx) .throw
  unfold stored
  split
  · exact .pure (same s)
  · exact .pure (same s)
  · refine .ite .throw ?_
    unfold setGuarded
    split
    · exact .get_bind (.pure (same s))
    · split
      · exact .pure (same s)
      · exact .pure (same s)
      · exact .throw
    · exact conform.bind fun v t more made => .pure <|
        Association.forall_insert (P := fun w => w ∈ o.fields.map Prod.snd ∨ Avoids K t w) (same t)
          (.inr made)

theorem StructRef.set_puts (r : StructRef) (name : String) (has : s.Has (.struct r)) :
    Puts K (.struct r) s (r.set name x) := by
  refine .get_bind (.bind (StructRef.stored_within (Store.addsObjects_keeps _) _ _ _)
    (StructRef.stored_gives guarded hx (s.struct r) name) fun o t more made => ?_)
  refine .of_modify (o := .struct o) rfl fun w mem => ?_
  obtain ⟨e, inside, rfl⟩ := List.mem_map.1 mem
  rw [Store.parts, more.same (.struct r) has trivial]
  exact made e inside

/-- A store puts a part in place at most: one that avoids what the stored value avoids. -/
theorem Aggregate.setItem_puts (index : Value) (has : s.Has p) :
    Puts K p s (setItem p.value index x) := by
  have adds := Store.addsObjects_keeps fun _ => True
  cases p with
  | array r =>
    refine .of_run rfl (.ite ?_ ?_)
    · exact .of_within (.bind adds (.get adds) fun _ => .throw adds rfl)
    · refine .bind (place_within adds _ _) (.of_within (place_within adds _ _)) fun i t more _ => ?_
      refine .bind (Value.coerce_within adds _ _)
        (Value.coerce_avoids (guarded.later more) (hx.extended more) _) fun v u _ made => ?_
      refine .of_modify (u.replace_array r _) fun w mem => ?_
      obtain old | rfl := Array.mem_or_eq_of_mem_setIfInBounds (Array.mem_toList_iff.1 mem)
      · exact .inl (Array.mem_toList_iff.2 old)
      · exact .inr made
  | struct r => exact .get_bind (StructRef.set_puts guarded hx r _ has)
  | map r => exact MapRef.set_puts guarded hx r index

end

/-! ## Sequences of stores -/

namespace StoreM.Puts

variable {m : StoreM α}

theorem keeps (h : Puts K p s m) (other : ¬K p) : Keeps K s (m s).2 := by
  obtain ⟨t, more, put | ⟨o, -, put⟩⟩ := h
  · rw [put]
    exact more.mono fun _ _ => trivial
  · rw [put]
    refine ⟨fun q there => Store.has_replace.2 (more.has q there), fun q there kept => ?_⟩
    rw [Store.object_replace_of_ne (by rintro rfl; exact other kept), more.same q there trivial]

theorem avoids (h : Puts K p s m) (inside : Avoids K s p.value) (hw : Avoids K s w) :
    Avoids K (m s).2 w := by
  obtain ⟨t, more, put | ⟨o, parts, put⟩⟩ := h
  · rw [put]
    exact hw.extended more
  · rw [put]
    refine (hw.extended more).replaced fun x mem => ?_
    obtain old | made := parts x mem
    · exact (inside.extended more).part p.place?_value old
    · exact made

end StoreM.Puts

/-- Objects are added, or an element, a field or an entry of what `w` reaches is stored, of a value
that avoids `K`. -/
inductive Stores (K : Place → Prop) (w : Value) : Store → Store → Prop
  | add {s t : Store} (more : s.GrowsTo t) : Stores K w s t
  | store {s : Store} {p : Place} {x : Value} (index : Value) (through : s.Reaches w p)
      (apart : Avoids K s x) : Stores K w s (Aggregate.setItem p.value index x s).2

namespace Stores

/-- A single store leaves `K` alone and out of reach. -/
theorem step (h : Stores K w s t) (guarded : Guarded K s) (hw : Avoids K s w) :
    Keeps K s t ∧ Avoids K t w := by
  cases h with
  | add more => exact ⟨more.mono fun _ _ => trivial, hw.extended more⟩
  | store index through apart =>
    have inside := hw.inner through
    obtain ⟨has, other⟩ := hw _ through
    have puts := Aggregate.setItem_puts guarded apart index has
    exact ⟨puts.keeps other, puts.avoids inside hw⟩

/-- So does every sequence of stores. -/
theorem keeps (h : Relation.ReflTransGen (Stores K w) s t) (guarded : Guarded K s)
    (hw : Avoids K s w) : Keeps K s t ∧ Avoids K t w := by
  induction h with
  | refl => exact ⟨.refl s, hw⟩
  | tail _ last ih =>
    obtain ⟨kept, apart⟩ := ih
    obtain ⟨kept', apart'⟩ := last.step (fun p mem => kept.has p (guarded p mem)) apart
    exact ⟨kept.trans kept', apart'⟩

end Stores

/-! ## Copies -/

/-- A copy is equal to what it copies, reaches no array, struct or map that this one reaches, and no
sequence of stores through it changes what this one reaches. -/
theorem Value.copy_equal_and_apart (h : s.Copyable v) :
    ∃ w t, v.copy s = (.ok w, t) ∧ w.equal t v = true ∧ (∀ p, t.Reaches w p → ¬t.Reaches v p) ∧
      ∀ u, Relation.ReflTransGen (Stores (s.Reaches v) w) t u →
        ∀ p, (u.Reaches v p ↔ s.Reaches v p) ∧ (s.Reaches v p → u.object p = s.object p) := by
  obtain ⟨w, t, run, more, copied⟩ := copy_isCopy h.sound
  refine ⟨w, t, run, copied.equal_here h more, fun p reached same => ?_, fun u changes p => ?_⟩
  · have old := (more.reaches_iff fun p reached => ⟨h.there p reached, trivial⟩).1 same
    exact (copied.apart p reached).2 (h.there p old)
  · have guarded : Guarded (s.Reaches v) t := fun p reached => more.has p (h.there p reached)
    have apart : Avoids (s.Reaches v) t w := fun p reached =>
      ⟨(copied.apart p reached).1, fun old => (copied.apart p reached).2 (h.there p old)⟩
    have kept := (more.mono fun _ _ => trivial).trans (Stores.keeps changes guarded apart).1
    exact ⟨kept.reaches_iff fun p reached => ⟨h.there p reached, reached⟩,
      fun reached => kept.same p (h.there p reached) reached⟩

/-- A struct with a map in it. -/
def structWithMap : Store where
  structs := #[{ fields := [("sizes", .map ⟨0⟩)] }]
  maps := #[{ entries := [(.string "a", .int 1)] }]

theorem structWithMap_copyable : structWithMap.Copyable (.struct ⟨0⟩) := by
  have number (p : Place) : ¬structWithMap.Reaches (.int 1) p := Store.Reaches.not_of_placeless rfl
  have map : structWithMap.Copyable (.map ⟨0⟩) :=
    .of_parts (p := .map ⟨0⟩) rfl Nat.zero_lt_one (List.nodup_singleton _)
      (List.forall_mem_singleton.2 (number _))
      (List.forall_mem_singleton.2 (.of_placeless rfl trivial))
  refine .of_parts (p := .struct ⟨0⟩) rfl Nat.zero_lt_one (List.nodup_singleton _) ?_
    (List.forall_mem_singleton.2 map)
  refine List.forall_mem_singleton.2 fun reached => ?_
  cases reached with
  | here refers => cases refers
  | inside refers part deeper =>
    cases refers
    cases List.mem_singleton.1 part
    exact number _ deeper

/-- Storing in the map of the copy leaves the map of the original as it was. -/
theorem Value.structWithMap_copy_stored :
    let t := ((Value.struct ⟨0⟩).copy structWithMap).2
    (Value.struct ⟨0⟩).copy structWithMap = (.ok (.struct ⟨1⟩), t) ∧
    Value.equal t (.struct ⟨1⟩) (.struct ⟨0⟩) = true ∧
    ((Aggregate.setItem (.map ⟨1⟩) (.string "a") (.int 5) t).2.map ⟨0⟩).entries =
      [(.string "a", .int 1)] := by
  intro t
  have here : (Value.struct ⟨0⟩).copy structWithMap = (.ok (.struct ⟨1⟩), t) := rfl
  obtain ⟨w, u, run, equal, -, kept⟩ := copy_equal_and_apart structWithMap_copyable
  cases here.symm.trans run
  refine ⟨here, equal, ?_⟩
  have through : t.Reaches (.struct ⟨1⟩) (.map ⟨1⟩) :=
    .inside (w := .map ⟨1⟩) (p := .struct ⟨1⟩) rfl (List.mem_singleton_self _) (.here rfl)
  have reached : structWithMap.Reaches (.struct ⟨0⟩) (.map ⟨0⟩) :=
    .inside (w := .map ⟨0⟩) (p := .struct ⟨0⟩) rfl (List.mem_singleton_self _) (.here rfl)
  have kept := kept _ (.single (.store (.string "a") through (.of_placeless (v := .int 5) rfl)))
  injection (kept (.map ⟨0⟩)).2 reached with same
  exact congrArg MapObject.entries same

/-- A template is its own copy and not equal to itself. -/
theorem Value.template_copy_unequal :
    let t := Value.template ⟨"t", [.literal "hi"]⟩
    t.copy {} = (.ok t, {}) ∧ t.equal {} t = false := ⟨rfl, rfl⟩

end StackScript
