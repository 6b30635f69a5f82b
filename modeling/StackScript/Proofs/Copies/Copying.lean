import StackScript.Proofs.Copies.Reaching
import StackScript.Value.Copy

/-!
# Deep copies

A deep copy follows the value that it copies: by induction on how deep that value may still nest,
every part of the copy is a copy of the part in its place, its array, struct or map is one that was
not there before, and comparing the two goes through the same places in step. The comparison holds
of values that are equal to themselves, which templates and NaN are not.

Main statements: `Value.copyTo_copies`, `Value.copy_isCopy` and `IsCopy.equal_here`.
-/
namespace StackScript

namespace Association

variable {α β : Type} [BEq α] [LawfulBEq α]

theorem find?_of_mem {key : α} {value : β} {entries : List (α × β)}
    (distinct : (keys entries).Nodup) (mem : (key, value) ∈ entries) :
    find? key entries = some value := by
  induction entries with
  | nil => cases mem
  | cons e rest ih =>
    obtain ⟨other, rest'⟩ := List.nodup_cons.1 distinct
    unfold find?
    split <;> rename_i same
    · obtain rfl | mem := List.mem_cons.1 mem
      · rfl
      · exact absurd (List.mem_map_of_mem (f := Prod.fst) mem) (eq_of_beq same ▸ other)
    · obtain rfl | mem := List.mem_cons.1 mem
      · simp at same
      · exact ih rest' mem

end Association

/-! ## Lists that are alike -/

section Lists

variable {α β : Type} {R S : α → β → Prop} {xs : List α} {ys : List β}

theorem forall₂_imp_mem (h : List.Forall₂ R xs ys)
    (imp : ∀ x ∈ xs, ∀ y ∈ ys, R x y → S x y) : List.Forall₂ S xs ys := by
  obtain ⟨length, each⟩ := List.forall₂_iff_zip.1 h
  exact List.forall₂_iff_zip.2 ⟨length, fun mem =>
    imp _ (List.of_mem_zip mem).1 _ (List.of_mem_zip mem).2 (each mem)⟩

theorem exists_of_forall₂ (h : List.Forall₂ R xs ys) : ∀ x ∈ xs, ∃ y ∈ ys, R x y := by
  intro x mem
  obtain ⟨i, bound, rfl⟩ := List.getElem_of_mem mem
  obtain ⟨length, each⟩ := List.forall₂_iff_get.1 h
  exact ⟨_, List.get_mem ys ⟨i, length ▸ bound⟩, each i bound (length ▸ bound)⟩

end Lists

/-! ## Equality of objects -/

namespace Value

variable {s : Store} {v : Value}

/-- A value that is equal to itself: no template, no tuple or frame of the machine, and no NaN. -/
def Comparable : Value → Prop
  | template _ | tuple _ | frame _ => False
  | float32 x => (x.toFloat == x.toFloat) = true
  | float64 x => (x == x) = true
  | _ => True

theorem equalTo_self (h : v.Comparable) (d : Nat) : equalTo s (d + 1) v v = true := by
  cases v with
  | template | tuple | frame => exact h.elim
  | float32 | float64 => exact h
  | byte | int32 | int | int64 => exact beq_self_eq_true (some _)
  | _ => simp [equalTo]

theorem allEqual_of_forall₂ {equal : Value → Value → Bool} {xs ys : List Value}
    (h : List.Forall₂ (fun x y => equal x y = true) xs ys) : allEqual equal xs ys = true := by
  obtain ⟨length, each⟩ := List.forall₂_iff_zip.1 h
  simp only [allEqual, length, beq_self_eq_true, Bool.true_and, List.all_eq_true]
  exact fun _ mem => each mem

theorem sameEntries_of_forall₂ {α : Type} [BEq α] [LawfulBEq α] {equal : Value → Value → Bool}
    {xs ys : List (α × Value)} (distinct : (Association.keys ys).Nodup)
    (h : List.Forall₂ (fun x y => x.1 = y.1 ∧ equal x.2 y.2 = true) xs ys) :
    sameEntries equal xs ys = true := by
  simp only [sameEntries, h.length_eq, beq_self_eq_true, Bool.true_and, List.all_eq_true]
  intro x mem
  obtain ⟨y, mem', key, same⟩ := exists_of_forall₂ h x mem
  rw [key, Association.find?_of_mem distinct mem']
  exact same

end Value

namespace Aggregated

variable {R S : Value → Value → Prop} {a b : Aggregated}

/-- Two objects of one kind have related values in the same places. -/
inductive Alike (R : Value → Value → Prop) : Aggregated → Aggregated → Prop
  | array {a b : ArrayObject} (items : List.Forall₂ R a.items.toList b.items.toList) :
      Alike R (.array a) (.array b)
  | struct {a b : StructObject}
      (fields : List.Forall₂ (fun x y => x.1 = y.1 ∧ R x.2 y.2) a.fields b.fields) :
      Alike R (.struct a) (.struct b)
  | map {a b : MapObject}
      (entries : List.Forall₂ (fun x y => x.1 = y.1 ∧ R x.2 y.2) a.entries b.entries) :
      Alike R (.map a) (.map b)

theorem Alike.imp (h : Alike R a b) (imp : ∀ x, ∀ y ∈ b.parts, R x y → S x y) : Alike S a b := by
  cases h with
  | array items => exact .array (forall₂_imp_mem items fun x _ y mem => imp x y mem)
  | struct fields =>
    exact .struct <| forall₂_imp_mem fields fun x _ y mem related =>
      related.imp_right (imp _ _ (List.mem_map_of_mem mem))
  | map entries =>
    exact .map <| forall₂_imp_mem entries fun x _ y mem related =>
      related.imp_right (imp _ _ (List.mem_map_of_mem mem))

theorem Alike.exists (h : Alike R a b) : ∀ x ∈ a.parts, ∃ y ∈ b.parts, R x y := by
  have entry {α : Type} {xs ys : List (α × Value)}
      (h : List.Forall₂ (fun x y => x.1 = y.1 ∧ R x.2 y.2) xs ys) :
      ∀ x ∈ xs.map Prod.snd, ∃ y ∈ ys.map Prod.snd, R x y := by
    intro x mem
    obtain ⟨e, there, rfl⟩ := List.mem_map.1 mem
    obtain ⟨e', mem', -, related⟩ := exists_of_forall₂ h e there
    exact ⟨_, List.mem_map_of_mem mem', related⟩
  cases h with
  | array items => exact exists_of_forall₂ items
  | struct fields => exact entry fields
  | map entries => exact entry entries

/-- Whether two objects have one kind and equal values in it. -/
def same (equal : Value → Value → Bool) : Aggregated → Aggregated → Bool
  | array a, array b => Value.allEqual equal a.items.toList b.items.toList
  | struct a, struct b => Value.sameEntries equal a.fields b.fields
  | map a, map b => Value.sameEntries equal a.entries b.entries
  | _, _ => false

theorem Alike.same {equal : Value → Value → Bool} (h : Alike (fun x y => equal x y = true) a b)
    (keyed : b.Keyed) : a.same equal b = true := by
  cases h with
  | array items => exact Value.allEqual_of_forall₂ items
  | struct fields => exact Value.sameEntries_of_forall₂ keyed fields
  | map entries => exact Value.sameEntries_of_forall₂ keyed entries

end Aggregated

theorem Value.equalTo_of_same {s : Store} {d : Nat} {p q : Place}
    (h : (s.object p).same (equalTo s d) (s.object q) = true) :
    equalTo s (d + 1) p.value q.value = true := by
  cases p <;> cases q <;> first
    | cases h
    | simp only [Place.value, equalTo, Bool.or_eq_true]
      exact .inr h

/-! ## What a copy is -/

variable {s t u : Store} {v w x : Value} {p q : Place} {o : Aggregated}

theorem Store.Reaches.onward (h : s.Reaches v p) (part : w ∈ s.parts p) (deeper : s.Reaches w q) :
    s.Reaches v q := by
  induction h with
  | here refers => exact .inside refers part deeper
  | inside refers part' _ ih => exact .inside refers part' (ih part)

/-- What the value reaches is there and does not lie within itself. -/
structure Store.Sound (s : Store) (v : Value) : Prop where
  there : ∀ p, s.Reaches v p → s.Has p
  acyclic : s.Acyclic v

theorem Store.Sound.part (h : s.Sound v) (refers : v.place? = some p) (mem : w ∈ s.parts p) :
    s.Sound w :=
  ⟨fun q deeper => h.there q (.inside refers mem deeper),
    fun q deeper => h.acyclic q (.inside refers mem deeper)⟩

theorem Store.Sound.later (h : s.Sound v) (more : s.GrowsTo t) : t.Sound v := by
  have kept : ∀ p, s.Reaches v p → s.Has p ∧ True := fun p reached => ⟨h.there p reached, trivial⟩
  refine ⟨fun p reached => more.has p (h.there p ((more.reaches_iff kept).1 reached)), ?_⟩
  intro p reached w mem deeper
  have here := (more.reaches_iff kept).1 reached
  rw [Store.parts, more.same p (h.there p here) trivial] at mem
  have inside : ∀ q, s.Reaches w q → s.Reaches v q := fun q deeper => here.onward mem deeper
  exact h.acyclic p here w mem ((more.reaches_iff fun q deeper => kept q (inside q deeper)).1 deeper)

/-- The value can be copied and compared: what it reaches is there, has no key twice, does not lie
within itself and holds values that are equal to themselves. -/
structure Store.Copyable (s : Store) (v : Value) : Prop where
  there : ∀ p, s.Reaches v p → s.Has p
  keyed : ∀ p, s.Reaches v p → (s.object p).Keyed
  acyclic : s.Acyclic v
  itself : v.Comparable
  within : ∀ p, s.Reaches v p → ∀ w ∈ s.parts p, w.Comparable

theorem Store.Copyable.sound (h : s.Copyable v) : s.Sound v := ⟨h.there, h.acyclic⟩

theorem Store.Copyable.part (h : s.Copyable v) (refers : v.place? = some p) (mem : w ∈ s.parts p) :
    s.Copyable w where
  there q deeper := h.there q (.inside refers mem deeper)
  keyed q deeper := h.keyed q (.inside refers mem deeper)
  acyclic q deeper := h.acyclic q (.inside refers mem deeper)
  itself := h.within p (.here refers) w mem
  within q deeper := h.within q (.inside refers mem deeper)

theorem Store.Copyable.of_placeless (refers : v.place? = none) (h : v.Comparable) : s.Copyable v := by
  have nothing (p : Place) : ¬s.Reaches v p := Store.Reaches.not_of_placeless refers
  exact ⟨fun p reached => absurd reached (nothing p), fun p reached => absurd reached (nothing p),
    fun p reached => absurd reached (nothing p), h, fun p reached => absurd reached (nothing p)⟩

/-- An object can be copied if its parts can and none of them reaches it. -/
theorem Store.Copyable.of_parts (refers : v.place? = some p) (has : s.Has p)
    (keyed : (s.object p).Keyed) (apart : ∀ w ∈ s.parts p, ¬s.Reaches w p)
    (parts : ∀ w ∈ s.parts p, s.Copyable w) : s.Copyable v := by
  obtain rfl := Value.eq_value refers
  have within {motive : Place → Prop} (here : motive p)
      (inside : ∀ w ∈ s.parts p, ∀ q, s.Reaches w q → motive q) : ∀ q, s.Reaches p.value q → motive q := by
    intro q reached
    obtain rfl | ⟨w, mem, deeper⟩ := reached.here_or_inside refers
    · exact here
    · exact inside w mem q deeper
  exact ⟨within has fun w mem => (parts w mem).there, within keyed fun w mem => (parts w mem).keyed,
    within apart fun w mem => (parts w mem).acyclic, by cases p <;> trivial,
    within (fun w mem => (parts w mem).itself) fun w mem => (parts w mem).within⟩

/-- `w` copies the value `v` of the store `s`: it reaches only what has been added to `s`, and it is
equal to `v` if that can be compared, in the store `t` and in every one that `t` grows to. -/
structure IsCopy (s t : Store) (w v : Value) : Prop where
  apart : Store.Avoids s.Has t w
  equal : s.Copyable v → ∀ u, t.GrowsTo u → ∀ d, s.depth v < d → Value.equalTo u d w v = true

/-- A computation gives a copy of a value of `s`, whatever has been added to `s` before. -/
def Copies (s : Store) (m : StoreM Value) (v : Value) : Prop :=
  ∀ t, s.GrowsTo t → ∃ w u, m t = (.ok w, u) ∧ t.GrowsTo u ∧ IsCopy s u w v

namespace IsCopy

theorem later (h : IsCopy s t w v) (more : t.GrowsTo u) : IsCopy s u w v where
  apart := h.apart.extended more
  equal copyable u' more' := h.equal copyable u' (more.trans more')

theorem of_scalar (scalar : v.place? = none) : IsCopy s t v v where
  apart := .of_placeless scalar
  equal h _ _ d deep := by
    obtain ⟨d, rfl⟩ := Nat.exists_eq_succ_of_ne_zero (Nat.ne_zero_of_lt deep)
    exact Value.equalTo_self h.itself d

/-- A new object whose parts are copies is a copy. -/
theorem of_add (h : s.Sound p.value) (base : s.GrowsTo t)
    (alike : o.Alike (IsCopy s t) (s.object p)) : IsCopy s (t.add o).2 (t.add o).1.value p.value where
  apart := by
    have fresh : ¬s.Has (t.add o).1 := fun old => Store.not_has_add (base.has _ old)
    refine .of_parts (Place.place?_value _) Store.has_add fresh fun x mem => ?_
    rw [Store.parts, Store.object_add] at mem
    obtain ⟨y, -, copied⟩ := alike.exists x mem
    exact copied.apart.extended (Store.keeps_add _ t o)
  equal copyable u more d deep := by
    obtain ⟨d, rfl⟩ := Nat.exists_eq_succ_of_ne_zero (Nat.ne_zero_of_lt deep)
    have here : s.Reaches p.value p := .here (Place.place?_value p)
    have new := Store.keeps_add (fun _ => True) t o
    apply Value.equalTo_of_same
    rw [more.same _ Store.has_add trivial, Store.object_add,
      ((base.trans new).trans more).same p (h.there p here) trivial]
    refine Aggregated.Alike.same (alike.imp fun x y mem copied => ?_) (copyable.keyed p here)
    have := Store.depth_part h.acyclic (Place.place?_value p) (h.there p here) mem
    exact copied.equal (copyable.part (Place.place?_value p) mem) u (new.trans more) d (by omega)

end IsCopy

/-! ## Copying -/

namespace StoreM

variable {α β : Type} {P : Store → β → α → Prop}

theorem map_of_ok {f : α → β} {m : StoreM α} {a : α} (h : m s = (.ok a, t)) :
    (f <$> m) s = (.ok (f a), t) := by
  rw [← bind_pure_comp, bind_of_ok h]
  rfl

/-- A computation on each of a list of values, what it establishes of one lasting through the next. -/
theorem mapM_forall₂ {f : α → StoreM β} (later : ∀ {t u b a}, P t b a → t.GrowsTo u → P u b a)
    {items : List α} (each : ∀ a ∈ items, ∀ t, s.GrowsTo t →
      ∃ b u, f a t = (.ok b, u) ∧ t.GrowsTo u ∧ P u b a) (base : s.GrowsTo t) :
    ∃ bs u, items.mapM f t = (.ok bs, u) ∧ t.GrowsTo u ∧ List.Forall₂ (P u) bs items := by
  induction items generalizing t with
  | nil => exact ⟨[], t, rfl, .refl t, .nil⟩
  | cons a rest ih =>
    obtain ⟨b, t₁, first, more, made⟩ := each a List.mem_cons_self t base
    obtain ⟨bs, t₂, others, more', made'⟩ :=
      ih (fun a mem => each a (List.mem_cons_of_mem _ mem)) (base.trans more)
    refine ⟨b :: bs, t₂, ?_, more.trans more', .cons (later made more') made'⟩
    rw [List.mapM_cons, bind_of_ok first, bind_of_ok others]
    rfl

end StoreM

namespace Value

theorem copyEntries_eq {α : Type} (copy : Value → StoreM Value) (entries : List (α × Value)) :
    copyEntries copy entries = entries.mapM fun e => (e.1, ·) <$> copy e.2 := by
  induction entries with
  | nil => rfl
  | cons e rest ih => simp [copyEntries, List.mapM_cons, ih]

theorem copyEntries_copies {α : Type} {copy : Value → StoreM Value} {entries : List (α × Value)}
    (each : ∀ x ∈ entries.map Prod.snd, Copies s (copy x) x) (base : s.GrowsTo t) :
    ∃ copied u, copyEntries copy entries t = (.ok copied, u) ∧ t.GrowsTo u ∧
      List.Forall₂ (fun x y => x.1 = y.1 ∧ IsCopy s u x.2 y.2) copied entries := by
  rw [copyEntries_eq]
  refine StoreM.mapM_forall₂ (P := fun u (x y : α × Value) => x.1 = y.1 ∧ IsCopy s u x.2 y.2)
    (fun made more => ⟨made.1, made.2.later more⟩) (fun e mem t base => ?_) base
  obtain ⟨w, u, run, more, made⟩ := each e.2 (List.mem_map_of_mem mem) t base
  exact ⟨(e.1, w), u, StoreM.map_of_ok run, more, rfl, made⟩

end Value

/-- The object to add as a copy of an object, its parts copied in order. -/
def Aggregated.copyParts (copy : Value → StoreM Value) : Aggregated → StoreM Aggregated
  | array a => do
    let items ← a.items.mapM copy
    pure (.array { element := a.element, items := items })
  | struct o => do
    let fields ← Value.copyEntries copy o.fields
    pure (.struct { o with fields := fields })
  | map m => do
    let entries ← Value.copyEntries copy m.entries
    pure (.map { keyType := m.keyType, valueType := m.valueType, entries := entries })

theorem Aggregated.copyParts_copies {copy : Value → StoreM Value}
    (each : ∀ x ∈ o.parts, Copies s (copy x) x) (base : s.GrowsTo t) :
    ∃ o' u, o.copyParts copy t = (.ok o', u) ∧ t.GrowsTo u ∧ o'.Alike (IsCopy s u) o := by
  cases o with
  | array a =>
    obtain ⟨items, u, run, more, same⟩ :=
      StoreM.mapM_forall₂ (P := IsCopy s) IsCopy.later each base
    have run : a.items.mapM copy t = (.ok items.toArray, u) := by
      rw [Array.mapM_eq_mapM_toList]
      exact StoreM.map_of_ok run
    exact ⟨_, u, StoreM.bind_of_ok run, more, .array same⟩
  | struct o =>
    obtain ⟨fields, u, run, more, same⟩ := Value.copyEntries_copies each base
    exact ⟨_, u, StoreM.bind_of_ok run, more, .struct same⟩
  | map m =>
    obtain ⟨entries, u, run, more, same⟩ := Value.copyEntries_copies each base
    exact ⟨_, u, StoreM.bind_of_ok run, more, .map same⟩

namespace Value

theorem copyTo_value {depth : Nat} (run : (t.object p).copyParts (copyTo depth) t = (.ok o, u)) :
    copyTo (depth + 1) p.value t = (.ok (u.add o).1.value, (u.add o).2) := by
  cases p <;>
  · obtain ⟨parts, u', run, rest⟩ := StoreM.bind_ok run
    cases rest
    exact (StoreM.bind_of_ok (StoreM.get_eq t)).trans (StoreM.bind_of_ok run)

theorem copyTo_placeless (h : v.place? = none) (depth : Nat) : copyTo depth v = pure v := by
  cases depth with
  | zero => rfl
  | succ depth => cases v <;> first | rfl | cases h

/-- Copying as deep as a value nests gives a copy. -/
theorem copyTo_copies {depth : Nat} (h : s.Sound v) (deep : s.depth v ≤ depth) :
    Copies s (copyTo depth v) v := by
  intro t base
  induction depth generalizing v t with
  | zero =>
    cases refers : v.place? with
    | none => exact ⟨v, t, rfl, .refl t, .of_scalar refers⟩
    | some p =>
      have := s.depth_pos (.here refers) (h.there p (.here refers))
      omega
  | succ depth ih =>
    cases refers : v.place? with
    | none =>
      exact ⟨v, t, by rw [copyTo_placeless refers]; rfl, .refl t, .of_scalar refers⟩
    | some p =>
      obtain rfl := eq_value refers
      have there := h.there p (.here refers)
      have each : ∀ x ∈ (s.object p).parts, Copies s (copyTo depth x) x := fun x mem => by
        have := Store.depth_part h.acyclic refers there mem
        exact fun t base => ih (h.part refers mem) (by omega) t base
      obtain ⟨o, u, run, more, alike⟩ := Aggregated.copyParts_copies each base
      rw [← base.same p there trivial] at run
      exact ⟨_, _, copyTo_value run, more.trans (Store.keeps_add _ u o), .of_add h (base.trans more) alike⟩

theorem copy_isCopy (h : s.Sound v) :
    ∃ w t, v.copy s = (.ok w, t) ∧ s.GrowsTo t ∧ IsCopy s t w v := by
  obtain ⟨w, t, run, more, copied⟩ :=
    copyTo_copies h ((Store.depth_le (.refl s) v).trans (Nat.le_succ _)) s (.refl s)
  exact ⟨w, t, (StoreM.bind_of_ok (StoreM.get_eq s)).trans run, more, copied⟩

end Value

theorem IsCopy.equal_here (h : IsCopy s t w v) (copyable : s.Copyable v) (base : s.GrowsTo t) :
    Value.equal t w v = true :=
  h.equal copyable t (.refl t) _ (Nat.lt_succ_of_le (Store.depth_le base v))

end StackScript
