import Mathlib.Data.Finset.Card
import StackScript.Proofs.Objects
import StackScript.Machine.Aggregate

/-!
# What a value reaches

Arrays, structs and maps are places in the store, and a value reaches the places that it refers to
through items, fields and entries, however deep. Where no place is reached from its own parts, the
number of places that a value reaches bounds how deep it nests.

Main statements: `Store.depth_part` (parts nest less deep than the whole), `Store.depth_le` and
`Store.Avoids.transfer` (what a value reaches, after a change of the store).
-/
namespace StackScript

/-! ## Places -/

/-- Where an array, a struct or a map lies. -/
inductive Place where
  | array (r : ArrayRef)
  | struct (r : StructRef)
  | map (r : MapRef)
deriving DecidableEq

/-- What lies at a place. -/
inductive Aggregated where
  | array (a : ArrayObject)
  | struct (o : StructObject)
  | map (m : MapObject)

namespace Aggregated

/-- The values in an object: its items, fields or entries. -/
def parts : Aggregated → List Value
  | array a => a.items.toList
  | struct o => o.fields.map Prod.snd
  | map m => m.entries.map Prod.snd

/-- No field and no entry is there twice. -/
def Keyed : Aggregated → Prop
  | array _ => True
  | struct o => (Association.keys o.fields).Nodup
  | map m => (Association.keys m.entries).Nodup

end Aggregated

/-- The place that a value refers to. -/
def Value.place? : Value → Option Place
  | .array r => some (.array r)
  | .struct r => some (.struct r)
  | .map r => some (.map r)
  | _ => none

/-- The value that refers to a place. -/
def Place.value : Place → Value
  | array r => .array r
  | struct r => .struct r
  | map r => .map r

@[simp] theorem Place.place?_value (p : Place) : p.value.place? = some p := by cases p <;> rfl

theorem Value.eq_value {v : Value} {p : Place} (refers : v.place? = some p) : v = p.value := by
  cases v <;> cases refers <;> rfl

namespace Store

variable {s s' s'' : Store} {v w : Value} {p q : Place}

/-- Whether a place has been added. -/
def Has (s : Store) : Place → Prop
  | .array r => r.index < s.arrays.size
  | .struct r => r.index < s.structs.size
  | .map r => r.index < s.maps.size

/-- What lies at a place of the store. -/
def object (s : Store) : Place → Aggregated
  | .array r => .array (s.array r)
  | .struct r => .struct (s.struct r)
  | .map r => .map (s.map r)

/-- The values at a place. -/
def parts (s : Store) (p : Place) : List Value := (s.object p).parts

/-- A value reaches the place that it refers to and what the values there reach. -/
inductive Reaches (s : Store) : Value → Place → Prop
  | here {v : Value} {p : Place} (refers : v.place? = some p) : Reaches s v p
  | inside {v w : Value} {p q : Place} (refers : v.place? = some p) (part : w ∈ s.parts p)
      (deeper : Reaches s w q) : Reaches s v q

namespace Reaches

theorem refers (h : s.Reaches v q) : ∃ p, v.place? = some p := by
  cases h with
  | here refers => exact ⟨_, refers⟩
  | inside refers => exact ⟨_, refers⟩

theorem not_of_placeless (h : v.place? = none) : ¬s.Reaches v p := by
  intro reached
  obtain ⟨q, refers⟩ := reached.refers
  rw [h] at refers
  cases refers

theorem here_or_inside (refers : v.place? = some p) (h : s.Reaches v q) :
    q = p ∨ ∃ w ∈ s.parts p, s.Reaches w q := by
  cases h with
  | here refers' =>
    cases refers.symm.trans refers'
    exact .inl rfl
  | inside refers' part deeper =>
    cases refers.symm.trans refers'
    exact .inr ⟨_, part, deeper⟩

theorem trans (h : s.Reaches v p) (deeper : s.Reaches p.value q) : s.Reaches v q := by
  induction h with
  | here refers => exact Value.eq_value refers ▸ deeper
  | inside refers part _ ih => exact .inside refers part (ih deeper)

end Reaches

/-- No place that the value reaches is reached from its own parts. -/
def Acyclic (s : Store) (v : Value) : Prop :=
  ∀ p, s.Reaches v p → ∀ w ∈ s.parts p, ¬s.Reaches w p

/-! ## Depth -/

/-- All places of a store. -/
def places (s : Store) : Finset Place :=
  (Finset.range s.arrays.size).image (fun i => .array ⟨i⟩) ∪
    ((Finset.range s.structs.size).image (fun i => .struct ⟨i⟩) ∪
      (Finset.range s.maps.size).image fun i => .map ⟨i⟩)

theorem mem_places : p ∈ s.places ↔ s.Has p := by
  obtain ⟨⟨i⟩⟩ | ⟨⟨i⟩⟩ | ⟨⟨i⟩⟩ := p <;> simp [places, Has]

theorem card_places (s : Store) : s.places.card ≤ s.objectCount := by
  have arrays := Finset.card_image_le (s := Finset.range s.arrays.size) (f := fun i => Place.array ⟨i⟩)
  have structs :=
    Finset.card_image_le (s := Finset.range s.structs.size) (f := fun i => Place.struct ⟨i⟩)
  have maps := Finset.card_image_le (s := Finset.range s.maps.size) (f := fun i => Place.map ⟨i⟩)
  rw [Finset.card_range] at arrays structs maps
  have both := Finset.card_union_le
    ((Finset.range s.structs.size).image fun i => Place.struct ⟨i⟩)
    ((Finset.range s.maps.size).image fun i => Place.map ⟨i⟩)
  refine (Finset.card_union_le _ _).trans ?_
  rw [objectCount]
  omega

open Classical in
/-- The number of places that a value reaches. -/
noncomputable def depth (s : Store) (v : Value) : Nat := (s.places.filter (s.Reaches v)).card

theorem depth_pos (reached : s.Reaches v p) (has : s.Has p) : 0 < s.depth v := by
  classical
  exact Finset.card_pos.2 ⟨p, Finset.mem_filter.2 ⟨mem_places.2 has, reached⟩⟩

/-- A part reaches less than the whole, since it does not reach where it lies. -/
theorem depth_part (acyclic : s.Acyclic v) (refers : v.place? = some p) (has : s.Has p)
    (part : w ∈ s.parts p) : s.depth w < s.depth v := by
  classical
  have there : s.Reaches v p := .here refers
  refine Finset.card_lt_card (Finset.ssubset_iff_of_subset ?_ |>.2 ⟨p, ?_, ?_⟩)
  · exact Finset.monotone_filter_right _ fun q _ deeper => .inside refers part deeper
  · exact Finset.mem_filter.2 ⟨mem_places.2 has, there⟩
  · exact fun mem => acyclic p there w part (Finset.mem_filter.1 mem).2

/-! ## Stores that keep places -/

/-- Places stay, and what lies at those of `K` stays as it is. -/
structure Keeps (K : Place → Prop) (s s' : Store) : Prop where
  has : ∀ p, s.Has p → s'.Has p
  same : ∀ p, s.Has p → K p → s'.object p = s.object p

/-- Places are only added. -/
abbrev GrowsTo (s s' : Store) : Prop := Keeps (fun _ => True) s s'

namespace Keeps

variable {K L : Place → Prop}

theorem refl (s : Store) : Keeps K s s := ⟨fun _ => id, fun _ _ _ => rfl⟩

theorem trans (first : Keeps K s s') (second : Keeps K s' s'') : Keeps K s s'' where
  has p there := second.has p (first.has p there)
  same p there kept := (second.same p (first.has p there) kept).trans (first.same p there kept)

theorem mono (h : Keeps K s s') (fewer : ∀ p, L p → K p) : Keeps L s s' :=
  ⟨h.has, fun p there kept => h.same p there (fewer p kept)⟩

/-- Where everything that a value reaches is kept, it reaches nothing else. -/
theorem reaches_iff (h : Keeps K s s') (kept : ∀ p, s.Reaches v p → s.Has p ∧ K p) :
    s'.Reaches v q ↔ s.Reaches v q := by
  have parts {v : Value} {p : Place} (kept : ∀ p, s.Reaches v p → s.Has p ∧ K p)
      (refers : v.place? = some p) : s'.parts p = s.parts p :=
    congrArg _ (h.same p (kept p (.here refers)).1 (kept p (.here refers)).2)
  constructor
  · intro reached
    induction reached with
    | here refers => exact .here refers
    | inside refers part _ ih =>
      rw [parts kept refers] at part
      exact .inside refers part (ih fun p deeper => kept p (.inside refers part deeper))
  · intro reached
    induction reached with
    | here refers => exact .here refers
    | inside refers part _ ih =>
      refine .inside refers ?_ (ih fun p deeper => kept p (.inside refers part deeper))
      rwa [parts kept refers]

end Keeps

theorem depth_le (more : GrowsTo s s') (v : Value) : s.depth v ≤ s'.objectCount := by
  classical
  have fewer : s.places ⊆ s'.places := fun p there => mem_places.2 (more.has p (mem_places.1 there))
  calc s.depth v ≤ s.places.card := Finset.card_filter_le _ _
    _ ≤ s'.places.card := Finset.card_le_card fewer
    _ ≤ s'.objectCount := s'.card_places

/-! ## Adding an object -/

/-- Add an object. -/
def add (s : Store) : Aggregated → Place × Store
  | .array a => (s.newArray a).map .array id
  | .struct o => (s.newStruct o).map .struct id
  | .map m => (s.newMap m).map .map id

variable {o : Aggregated}

theorem not_has_add : ¬s.Has (s.add o).1 := by cases o <;> exact Nat.lt_irrefl _

theorem has_add : (s.add o).2.Has (s.add o).1 := by
  cases o <;> exact Nat.lt_of_lt_of_eq (Nat.lt_succ_self _) (Array.size_push _).symm

@[simp] theorem object_add : (s.add o).2.object (s.add o).1 = o := by
  cases o <;>
    simp [add, object, array, struct, map, newArray, newStruct, newMap, Array.getD_eq_getD_getElem?]

theorem keeps_add (K : Place → Prop) (s : Store) (o : Aggregated) : Keeps K s (s.add o).2 := by
  have old {α : Type} {items : Array α} {i : Nat} (a default : α) (h : i < items.size) :
      (items.push a).getD i default = items.getD i default := by
    rw [Array.getD_eq_getD_getElem?, Array.getD_eq_getD_getElem?, Array.getElem?_push_lt h,
      Array.getElem?_eq_getElem h]
  refine ⟨fun p there => ?_, fun p there _ => ?_⟩
  · cases o <;> cases p <;> first
      | exact there
      | exact Nat.lt_of_lt_of_le there (Array.size_push _ ▸ Nat.le_succ _)
  · cases o <;> cases p <;> first
      | rfl
      | exact congrArg _ (old _ _ there)

/-- What computations on a store add are new places. -/
theorem addsObjects_keeps (K : Place → Prop) : AddsObjects (Keeps K) where
  refl := .refl
  trans := .trans
  array s a := keeps_add K s (.array a)
  struct s o := keeps_add K s (.struct o)
  map s m := keeps_add K s (.map m)
  waitGroup s := ⟨fun p there => by cases p <;> exact there, fun p _ _ => by cases p <;> rfl⟩
  mutex s := ⟨fun p there => by cases p <;> exact there, fun p _ _ => by cases p <;> rfl⟩

/-! ## Replacing an object -/

/-- Replace what lies at a place by another object of its kind. -/
def replace (s : Store) : Place → Aggregated → Store
  | .array r, .array a => s.modifyArray r fun _ => a
  | .struct r, .struct o => s.modifyStruct r fun _ => o
  | .map r, .map m => s.modifyMap r fun _ => m
  | _, _ => s

theorem has_replace : (s.replace p o).Has q ↔ s.Has q := by
  cases p <;> cases o <;> cases q <;>
    simp [replace, Has, modifyArray, modifyStruct, modifyMap, Array.size_modify]

theorem object_replace_of_ne (other : q ≠ p) : (s.replace p o).object q = s.object q := by
  have getD {α : Type} {items : Array α} {i j : Nat} {f : α → α} {default : α} (h : i ≠ j) :
      (items.modify i f).getD j default = items.getD j default := by
    simp [Array.getD_eq_getD_getElem?, Array.getElem?_modify, h]
  obtain ⟨⟨i⟩⟩ | ⟨⟨i⟩⟩ | ⟨⟨i⟩⟩ := p <;> obtain ⟨⟨j⟩⟩ | ⟨⟨j⟩⟩ | ⟨⟨j⟩⟩ := q <;> cases o <;> first
    | rfl
    | exact congrArg _ (getD (by rintro rfl; exact other rfl))

theorem object_replace_self : (s.replace p o).object p = o ∨ s.replace p o = s := by
  have modify {α : Type} (items : Array α) (i : Nat) (a default : α) :
      (items.modify i fun _ => a).getD i default = a ∨ (items.modify i fun _ => a) = items := by
    by_cases bound : i < items.size
    · exact .inl (by simp [Array.getD_eq_getD_getElem?, Array.getElem_modify, bound])
    · refine .inr (Array.ext (Array.size_modify ..) fun j _ within => ?_)
      rw [Array.getElem_modify, if_neg (by rintro rfl; exact bound within)]
  cases p <;> cases o <;> first
    | exact .inr rfl
    | rename_i r a
      exact (modify s.arrays r.index a {}).imp (congrArg Aggregated.array) fun h => by
        rw [replace, modifyArray, h]
    | rename_i r a
      exact (modify s.structs r.index a {}).imp (congrArg Aggregated.struct) fun h => by
        rw [replace, modifyStruct, h]
    | rename_i r a
      exact (modify s.maps r.index a {}).imp (congrArg Aggregated.map) fun h => by
        rw [replace, modifyMap, h]

/-! ## Reaching only some places -/

/-- The value reaches only places that are there and that are not among `K`. -/
def Avoids (K : Place → Prop) (s : Store) (v : Value) : Prop := ∀ p, s.Reaches v p → s.Has p ∧ ¬K p

namespace Avoids

variable {K L : Place → Prop}

theorem of_placeless (h : v.place? = none) : Avoids K s v :=
  fun _ reached => absurd reached (Reaches.not_of_placeless h)

theorem of_parts (refers : v.place? = some p) (has : s.Has p) (other : ¬K p)
    (parts : ∀ w ∈ s.parts p, Avoids K s w) : Avoids K s v := by
  intro q reached
  obtain rfl | ⟨w, part, deeper⟩ := reached.here_or_inside refers
  · exact ⟨has, other⟩
  · exact parts w part q deeper

theorem part (h : Avoids K s v) (refers : v.place? = some p) (part : w ∈ s.parts p) :
    Avoids K s w := fun q deeper => h q (.inside refers part deeper)

theorem inner (h : Avoids K s v) (reached : s.Reaches v p) : Avoids K s p.value :=
  fun q deeper => h q (reached.trans deeper)

/-- After a change of the store a value still avoids places, if what has been put at the places
that avoid them does. -/
theorem transfer (h : Avoids K s v) (kept : ∀ p, Avoids K s p.value →
    s'.Has p ∧ ¬L p ∧ ∀ w ∈ s'.parts p, Avoids K s w) : Avoids L s' v := by
  intro q reached
  induction reached with
  | here refers =>
    obtain rfl := Value.eq_value refers
    exact ⟨(kept _ h).1, (kept _ h).2.1⟩
  | inside refers part _ ih =>
    obtain rfl := Value.eq_value refers
    exact ih ((kept _ h).2.2 _ part)

/-- A value of a store reaches no place that is added later. -/
theorem extended (h : Avoids K s v) (more : GrowsTo s s') : Avoids K s' v := by
  refine h.transfer fun p apart => ?_
  obtain ⟨has, other⟩ := apart p (.here p.place?_value)
  refine ⟨more.has p has, other, fun w part => ?_⟩
  rw [parts, more.same p has trivial] at part
  exact apart.part p.place?_value part

/-- Replacing an object by one whose parts avoid the places. -/
theorem replaced (h : Avoids K s v) (parts : ∀ w ∈ o.parts, Avoids K s w) :
    Avoids K (s.replace p o) v := by
  refine h.transfer fun q apart => ?_
  obtain ⟨has, other⟩ := apart q (.here q.place?_value)
  refine ⟨has_replace.2 has, other, fun w part => ?_⟩
  have unchanged (h : w ∈ s.parts q) : Avoids K s w := apart.part q.place?_value h
  by_cases same : q = p
  · subst same
    obtain new | old := object_replace_self (s := s) (p := q) (o := o)
    · rw [Store.parts, new] at part
      exact parts w part
    · rw [old] at part
      exact unchanged part
  · rw [Store.parts, object_replace_of_ne same] at part
    exact unchanged part

end Avoids

end Store

end StackScript
