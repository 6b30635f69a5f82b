import StackScript.Proofs.Copies.Reaching
import StackScript.Proofs.Debugging.Calm

/-!
# Conversions reach nothing else

A conversion gives the value itself, a scalar, or an object that is new and holds conversions of
what the value held: whatever places the value does not reach, its conversion does not reach.

Main statements: `Value.coerce_avoids`.
-/
namespace StackScript

variable {α β : Type} {s t : Store} {v w : Value} {p : Place} {o : Aggregated} {K : Place → Prop}

/-! ## What computations give -/

/-- What the computation gives, if it gives something, satisfies `P` in a store that has grown. -/
def StoreM.Gives (s : Store) (m : StoreM α) (P : Store → α → Prop) : Prop :=
  ∀ a t, m s = (.ok a, t) → s.GrowsTo t ∧ P t a

open StoreM (Gives)

/-- Keys and values of an association, each with a property of its own. -/
theorem Association.forall_insert_both {κ : Type} [BEq κ] {P : κ → Prop} {Q : β → Prop}
    {entries : List (κ × β)} {key : κ} {v : β} (h : ∀ e ∈ entries, P e.1 ∧ Q e.2) (hk : P key)
    (hv : Q v) : ∀ e ∈ insert key v entries, P e.1 ∧ Q e.2 := by
  induction entries with
  | nil => simpa [insert] using ⟨hk, hv⟩
  | cons e rest ih =>
    obtain ⟨here, others⟩ := List.forall_mem_cons.1 h
    unfold insert
    split
    · exact List.forall_mem_cons.2 ⟨⟨here.1, hv⟩, others⟩
    · exact List.forall_mem_cons.2 ⟨here, ih others⟩

namespace StoreM.Gives

variable {P : Store → α → Prop} {Q : Store → β → Prop} {m : StoreM α} {f : α → StoreM β}

theorem pure {a : α} (h : P s a) : Gives s (Pure.pure a) P := by
  intro b t run
  cases run
  exact ⟨.refl s, h⟩

theorem throw {f : Fault} : Gives s (MonadExcept.throw f : StoreM α) P := fun _ _ run => by cases run

theorem bind (first : Gives s m P) (rest : ∀ a t, s.GrowsTo t → P t a → Gives t (f a) Q) :
    Gives s (m >>= f) Q := by
  intro b u run
  obtain ⟨a, t, run, run'⟩ := bind_ok run
  obtain ⟨more, given⟩ := first a t run
  obtain ⟨more', given'⟩ := rest a t more given b u run'
  exact ⟨more.trans more', given'⟩

theorem get_bind {f : Store → StoreM β} (h : Gives s (f s) Q) : Gives s (get >>= f) Q := by
  intro b t run
  rw [bind_of_ok (get_eq s)] at run
  exact h b t run

theorem imp {P' : Store → α → Prop} (h : Gives s m P) (weaker : ∀ t a, s.GrowsTo t → P t a → P' t a) :
    Gives s m P' := fun a t run => ⟨(h a t run).1, weaker t a (h a t run).1 (h a t run).2⟩

theorem cond {c : Prop} [Decidable c] {yes no : StoreM α} (hyes : c → Gives s yes P)
    (hno : ¬c → Gives s no P) : Gives s (if c then yes else no) P := by
  split
  · exact hyes ‹_›
  · exact hno ‹_›

theorem ite {c : Prop} [Decidable c] {yes no : StoreM α} (hyes : Gives s yes P)
    (hno : Gives s no P) : Gives s (if c then yes else no) P := cond (fun _ => hyes) fun _ => hno

/-- A computation that only adds objects gives something in a store that has grown. -/
theorem of_within (h : Within Store.GrowsTo m) : Gives s m fun _ _ => True := by
  intro a t run
  have := h.store s
  rw [run] at this
  exact ⟨this, trivial⟩

/-- What holds of each value that a computation gives, and goes on holding, holds of all of them. -/
theorem mapM {P : Store → Value → Prop} (later : ∀ {s t v}, P s v → s.GrowsTo t → P t v)
    {f : Value → StoreM Value} {items : Array Value}
    (each : ∀ v ∈ items, ∀ t, s.GrowsTo t → Gives t (f v) P) :
    Gives s (items.mapM f) fun t items => ∀ v ∈ items.toList, P t v := by
  rw [Array.mapM_eq_foldlM, ← Array.foldlM_toList]
  replace each : ∀ v ∈ items.toList, ∀ t, s.GrowsTo t → Gives t (f v) P :=
    fun v mem => each v (Array.mem_toList_iff.1 mem)
  have none : ∀ v ∈ (#[] : Array Value).toList, P s v := by simp
  generalize items.toList = values at each ⊢
  generalize (#[] : Array Value) = done at none ⊢
  induction values generalizing s done with
  | nil => exact .pure none
  | cons a rest ih =>
    obtain ⟨here, others⟩ := List.forall_mem_cons.1 each
    rw [List.foldlM_cons]
    refine .bind (P := fun t done => ∀ v ∈ done.toList, P t v) ?_
      fun t _ more made => ih (fun v mem u more' => others v mem u (more.trans more')) _ made
    refine .bind (here s (.refl s)) fun v t more made => .pure fun w mem => ?_
    rw [Array.toList_push, List.mem_append, List.mem_singleton] at mem
    obtain old | rfl := mem
    · exact later (none w old) more
    · exact made

end StoreM.Gives

/-! ## New objects -/

namespace Store

/-- All places of `K` are there. -/
def Guarded (K : Place → Prop) (s : Store) : Prop := ∀ p, K p → s.Has p

theorem Guarded.later (h : Guarded K s) (more : s.GrowsTo t) : Guarded K t :=
  fun p mem => more.has p (h p mem)

/-- A new object whose parts avoid places that are there avoids them too. -/
theorem Avoids.added (guarded : Guarded K s) (parts : ∀ w ∈ o.parts, Avoids K s w) :
    Avoids K (s.add o).2 (s.add o).1.value := by
  refine .of_parts (Place.place?_value _) has_add (fun mem => not_has_add (guarded _ mem)) ?_
  intro w mem
  rw [Store.parts, object_add] at mem
  exact (parts w mem).extended (keeps_add _ s o)

end Store

open Store (Guarded Avoids)

section New

variable (guarded : Guarded K s)
include guarded

theorem StoreM.array_avoids {element : Ty} {items : Array Value}
    (parts : ∀ v ∈ items.toList, Avoids K s v) : Gives s (StoreM.array element items) (Avoids K) := by
  intro v t run
  cases run
  exact ⟨Store.keeps_add _ s (.array _), .added guarded (o := .array _) parts⟩

theorem StoreM.struct_avoids {o : StructObject} (parts : ∀ e ∈ o.fields, Avoids K s e.2) :
    Gives s (StoreM.struct o) (Avoids K) := by
  intro v t run
  cases run
  exact ⟨Store.keeps_add _ s (.struct _), .added guarded (o := .struct _) (List.forall_mem_map.2 parts)⟩

theorem StoreM.map_avoids {m : MapObject} (parts : ∀ e ∈ m.entries, Avoids K s e.2) :
    Gives s (StoreM.map m) (Avoids K) := by
  intro v t run
  cases run
  exact ⟨Store.keeps_add _ s (.map _), .added guarded (o := .map _) (List.forall_mem_map.2 parts)⟩

end New

/-! ## Zero values -/

namespace Value

theorem gives_scalar {m : StoreM Value} (within : StoreM.Within Store.GrowsTo m)
    (scalar : ∀ v t, m s = (.ok v, t) → v.place? = none) : Gives s m (Avoids K) := by
  intro v t run
  exact ⟨(Gives.of_within within v t run).1, .of_placeless (scalar v t run)⟩

theorem zeroPlain_avoids (guarded : Guarded K s) (name : Option String) (kind : Kind) :
    Gives s (zeroNamed name (.plain kind)) (Avoids K) := by
  cases kind with
  | array => exact StoreM.array_avoids guarded (by simp)
  | map => exact StoreM.map_avoids guarded (List.forall_mem_nil _)
  | struct => exact StoreM.struct_avoids guarded (List.forall_mem_nil _)
  | _ =>
    refine gives_scalar (zeroPlain_within (Store.addsObjects_keeps _) name _) fun v t run => ?_
    cases run
    rfl

mutual
theorem zeroNamed_avoids : (name : Option String) → (t : Ty) → ∀ {s}, Guarded K s →
    Gives s (zeroNamed name t) (Avoids K)
  | name, .named n t, _, guarded => zeroNamed_avoids (name.or (some n)) t guarded
  | _, .array _, _, guarded => StoreM.array_avoids guarded (by simp)
  | _, .map _ _, _, guarded => StoreM.map_avoids guarded (List.forall_mem_nil _)
  | _, .struct fields, _, guarded => (zeroFields_avoids fields guarded).bind fun _ _ more made =>
    StoreM.struct_avoids (guarded.later more) (Association.forall_ofList (P := Avoids K _) made)
  | _, .pointer _, _, _ => .pure (.of_placeless rfl)
  | _, .channel _, _, _ => .pure (.of_placeless rfl)
  | name, .plain kind, _, guarded => zeroPlain_avoids guarded name kind
theorem zeroFields_avoids : (fields : List (String × Ty)) → ∀ {s}, Guarded K s →
    Gives s (zeroFields fields) fun t values => ∀ e ∈ values, Avoids K t e.2
  | [], _, _ => .pure (List.forall_mem_nil _)
  | (_, t) :: rest, _, guarded => (zeroNamed_avoids none t guarded).bind fun _ _ more made =>
    (zeroFields_avoids rest (guarded.later more)).bind fun _ _ more' made' =>
      .pure (List.forall_mem_cons.2 ⟨made.extended more', made'⟩)
end

theorem zero_avoids (guarded : Guarded K s) (t : Ty) : Gives s (zero t) (Avoids K) :=
  zeroNamed_avoids none t guarded

/-! ## Conversions -/

theorem conversionFault_gives {P : Store → Value → Prop} (v : Value) (target : Ty) :
    Gives s (conversionFault v target) P := .get_bind .throw

theorem toText_kind (v : Value) : Gives s (toText v) fun _ w => w.kind = .string := by
  refine .get_bind ?_
  split
  · dsimp only
    split <;> exact .pure rfl
  · exact .pure rfl

theorem toBool_kind (v : Value) : Gives s (toBool v) fun _ w => w.kind = .bool := by
  unfold toBool
  split
  · split
    · exact .pure rfl
    · exact .pure rfl
    · exact conversionFault_gives _ _
  · exact .ite (.pure rfl) (conversionFault_gives _ _)

theorem toFloating_kind {kind : Kind} (float : kind.isFloat = true) (v : Value) :
    Gives s (toFloating kind v) fun _ w => w.kind = kind := by
  unfold toFloating
  dsimp only
  split
  · refine .pure ?_
    cases kind <;> first
      | rfl
      | cases float
  · exact conversionFault_gives _ _

theorem toInteger_kind {kind : Kind} (integer : kind.isInteger = true) (v : Value) :
    Gives s (toInteger kind v) fun _ w => w.kind = kind := by
  unfold toInteger
  dsimp only
  split
  · refine .pure ?_
    cases kind <;> first
      | rfl
      | cases integer
  · exact conversionFault_gives _ _

/-- A conversion to a scalar kind gives a scalar of that kind. -/
theorem coerceScalar_kind {kind : Kind} (scalar : kind.isScalar = true) (v : Value) :
    Gives s (coerceScalar kind v) fun _ w => w.kind = kind := by
  refine .cond (fun same => .pure (eq_of_beq same)) fun _ => .ite (.pure ?_) <|
    .cond (fun text => ?_) fun noText => .cond (fun bool => ?_) fun noBool =>
    .cond (fun float => toFloating_kind float v) fun noFloat => toInteger_kind ?_ v
  · cases kind <;> first
      | rfl
      | cases scalar
  · exact eq_of_beq text ▸ toText_kind v
  · exact eq_of_beq bool ▸ toBool_kind v
  · cases kind <;> first
      | rfl
      | (cases scalar; done)
      | exact absurd rfl noText
      | exact absurd rfl noBool
      | exact absurd rfl noFloat

theorem place?_of_scalar {v : Value} (scalar : v.kind.isScalar = true) : v.place? = none := by
  cases v <;> first
    | rfl
    | cases scalar

theorem coerceScalar_avoids {kind : Kind} (scalar : kind.isScalar = true) (v : Value) :
    Gives s (coerceScalar kind v) (Avoids K) :=
  (coerceScalar_kind scalar v).imp fun _ _ _ same => .of_placeless (place?_of_scalar (same ▸ scalar))

section

variable {toKey toItem : Value → StoreM Value}

/-- What holds of each key and each value when it is converted, and goes on holding, holds of all
entries. -/
theorem coerceEntries_gives {P : Store → MapKey → Prop} {Q : Store → Value → Prop}
    (keeps : ∀ {s t k}, P s k → s.GrowsTo t → P t k) (later : ∀ {s t v}, Q s v → s.GrowsTo t → Q t v)
    {entries : List (Value × Value)} {done : List (MapKey × Value)}
    (key : ∀ e ∈ entries, ∀ t, s.GrowsTo t → Gives t (toKey e.1 >>= keyOf) P)
    (item : ∀ e ∈ entries, ∀ t, s.GrowsTo t → Gives t (toItem e.2) Q)
    (hd : ∀ e ∈ done, P s e.1 ∧ Q s e.2) :
    Gives s (coerceEntries toKey toItem entries done) fun t entries => ∀ e ∈ entries, P t e.1 ∧ Q t e.2 := by
  induction entries generalizing s done with
  | nil => exact .pure hd
  | cons e rest ih =>
    obtain ⟨here, others⟩ := List.forall_mem_cons.1 key
    obtain ⟨here', others'⟩ := List.forall_mem_cons.1 item
    rw [coerceEntries, ← bind_assoc]
    refine .bind (here s (.refl s)) fun k s₁ more₁ hk => .bind (here' s₁ more₁) fun v s₂ more₂ hv => ?_
    have more := more₁.trans more₂
    refine ih (fun e mem u more' => others e mem u (more.trans more'))
      (fun e mem u more' => others' e mem u (more.trans more')) ?_
    exact Association.forall_insert_both (P := P _) (Q := Q _)
      (fun e mem => ⟨keeps (hd e mem).1 more, later (hd e mem).2 more⟩)
      (keeps hk more₂) hv

variable (key : ∀ v, StoreM.Within Store.GrowsTo (toKey v))
  (item : ∀ {s v}, Guarded K s → Avoids K s v → Gives s (toItem v) (Avoids K))
include key item

theorem coerceEntries_avoids {entries : List (Value × Value)} (guarded : Guarded K s)
    (he : ∀ e ∈ entries, Avoids K s e.2) :
    Gives s (coerceEntries toKey toItem entries []) fun t entries => ∀ e ∈ entries, Avoids K t e.2 := by
  refine (coerceEntries_gives (P := fun _ _ => True) (Q := Avoids K) (fun _ _ => trivial) Store.Avoids.extended
    (fun e _ t _ => ?_) (fun e mem t more => item (guarded.later more) ((he e mem).extended more))
    (List.forall_mem_nil _)).imp fun _ _ _ made e mem => (made e mem).2
  exact .of_within <| .bind (Store.addsObjects_keeps _) (key e.1) fun k =>
    keyOf_within (Store.addsObjects_keeps _) k

theorem coerceToMap_avoids (guarded : Guarded K s) (whole k t : Ty) (h : Avoids K s v) :
    Gives s (coerceToMap whole k t toKey toItem v) (Avoids K) := by
  refine .get_bind ?_
  split
  · exact zero_avoids guarded _
  · next r =>
    refine .ite (.pure h) ?_
    refine .bind (coerceEntries_avoids key item guarded ?_)
      fun _ _ more made => StoreM.map_avoids (guarded.later more) made
    intro e mem
    obtain ⟨entry, inside, rfl⟩ := List.mem_map.1 mem
    exact h.part (p := .map r) rfl (List.mem_map_of_mem inside)
  · next r =>
    refine .bind (coerceEntries_avoids key item guarded ?_)
      fun _ _ more made => StoreM.map_avoids (guarded.later more) made
    intro e mem
    obtain ⟨k, -, found⟩ := List.mem_filterMap.1 mem
    obtain ⟨v, here, rfl⟩ := Option.map_eq_some_iff.1 found
    have parts : ∀ e ∈ (s.struct r).fields, Avoids K s e.2 :=
      fun e mem => h.part (p := .struct r) rfl (List.mem_map_of_mem mem)
    exact Association.forall_find? (P := Avoids K s) parts v here
  · exact conversionFault_gives _ _

end

theorem coerceToStruct_avoids (guarded : Guarded K s) (whole : Ty) (h : Avoids K s v) :
    Gives s (coerceToStruct whole v) (Avoids K) := by
  unfold coerceToStruct
  split
  · exact zero_avoids guarded _
  · exact .pure h
  · next r =>
    refine .get_bind (StoreM.struct_avoids guarded fun e mem => ?_)
    obtain ⟨⟨k, v⟩, inside, field⟩ := List.mem_filterMap.1 mem
    cases k <;> cases field
    exact h.part (p := .map r) rfl (List.mem_map_of_mem (f := Prod.snd) inside)
  · exact conversionFault_gives _ _

theorem coerceToKind_avoids (guarded : Guarded K s) (whole : Ty) (kind : Kind) (h : Avoids K s v) :
    Gives s (coerceToKind whole kind v) (Avoids K) := by
  unfold coerceToKind
  split
  · exact zero_avoids guarded _
  · exact .pure (.of_placeless rfl)
  · exact .ite (.pure h) (conversionFault_gives _ _)

theorem unchanged_avoids (h : Avoids K s v) : Gives s (unchanged v) (Avoids K) := .ite .throw (.pure h)

theorem coerceAs_avoids : (t whole : Ty) → ∀ {s v}, Guarded K s → Avoids K s v →
    Gives s (coerceAs whole t v) (Avoids K)
  | .named _ t, whole, _, _, guarded, h => .ite .throw (coerceAs_avoids t whole guarded h)
  | .pointer _, _, _, _, _, h => .ite .throw (.pure h)
  | .array element, whole, s, v, guarded, h => by
    refine .ite .throw ?_
    dsimp only
    split
    · exact zero_avoids guarded _
    · next r =>
      refine .get_bind (.ite (.pure h) ?_)
      refine .bind (.mapM (P := Avoids K) Store.Avoids.extended fun v mem t more => ?_) fun items t more made =>
        StoreM.array_avoids (guarded.later more) made
      have part : Avoids K s v := h.part (p := .array r) rfl (Array.mem_toList_iff.2 mem)
      exact coerceAs_avoids element element (guarded.later more) (part.extended more)
    · refine .ite (StoreM.array_avoids guarded fun v mem => ?_) (conversionFault_gives _ _)
      obtain ⟨b, -, rfl⟩ := List.mem_map.1 mem
      exact .of_placeless rfl
    · exact conversionFault_gives _ _
  | .map key value, _, _, _, guarded, h => .ite .throw <|
    coerceToMap_avoids (fun _ => coerceAs_within (Store.addsObjects_keeps _) key key _)
      (coerceAs_avoids value value) guarded _ _ _ h
  | .struct _, whole, _, _, guarded, h => .ite .throw (coerceToStruct_avoids guarded whole h)
  | .channel _, whole, _, _, guarded, h => .ite .throw (coerceToKind_avoids guarded whole .channel h)
  | .plain kind, whole, _, _, guarded, h => .ite .throw <| .ite (.pure h) <|
    .cond (fun scalar => coerceScalar_avoids scalar _) fun _ =>
    .ite (coerceToMap_avoids (fun _ => unchanged_within (Store.addsObjects_keeps _) _)
      (fun _ => unchanged_avoids) guarded _ _ _ h) <|
    .ite (coerceToStruct_avoids guarded whole h) (coerceToKind_avoids guarded whole kind h)

theorem copyEntries_avoids {α : Type} {copy : Value → StoreM Value} {entries : List (α × Value)}
    (each : ∀ e ∈ entries, ∀ t, s.GrowsTo t → Gives t (copy e.2) (Avoids K)) :
    Gives s (copyEntries copy entries) fun t copied => ∀ e ∈ copied, Avoids K t e.2 := by
  induction entries generalizing s with
  | nil => exact .pure nofun
  | cons e rest ih =>
    obtain ⟨here, others⟩ := List.forall_mem_cons.1 each
    refine (here s (.refl s)).bind fun v t more made =>
      (ih fun e mem u more' => others e mem u (more.trans more')).bind fun copied u more' made' =>
        .pure (List.forall_mem_cons.2 ⟨made.extended more', made'⟩)

/-- What a value does not reach, no copy of it reaches. -/
theorem copyTo_avoids (guarded : Guarded K s) (h : Avoids K s v) (depth : Nat) :
    Gives s (copyTo depth v) (Avoids K) := by
  induction depth generalizing s v with
  | zero => exact .pure h
  | succ depth ih =>
    have part {p : Place} (refers : v.place? = some p) (w : Value) (mem : w ∈ s.parts p) (t : Store)
        (more : s.GrowsTo t) : Gives t (copyTo depth w) (Avoids K) :=
      ih (guarded.later more) ((h.part refers mem).extended more)
    cases v with
    | array r =>
      exact .get_bind <| .bind (.mapM (P := Avoids K) Store.Avoids.extended fun w mem =>
        part (p := .array r) rfl w (Array.mem_toList_iff.2 mem))
        fun items t more made => StoreM.array_avoids (guarded.later more) made
    | struct r =>
      exact .get_bind <| .bind (copyEntries_avoids fun e mem =>
          part (p := .struct r) rfl e.2 (List.mem_map_of_mem mem))
        fun fields t more made => StoreM.struct_avoids (guarded.later more) made
    | map r =>
      exact .get_bind <| .bind (copyEntries_avoids fun e mem =>
          part (p := .map r) rfl e.2 (List.mem_map_of_mem mem))
        fun entries t more made => StoreM.map_avoids (guarded.later more) made
    | _ => exact .pure h

/-- What a value does not reach, its conversion does not reach. -/
theorem coerce_avoids (guarded : Guarded K s) (h : Avoids K s v) (t : Ty) :
    Gives s (v.coerce t) (Avoids K) := coerceAs_avoids t t guarded h

end Value

end StackScript
