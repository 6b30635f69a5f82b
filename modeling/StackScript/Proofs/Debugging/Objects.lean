import StackScript.Proofs.Debugging.Calm
import StackScript.Machine.Operator
import StackScript.Machine.Aggregate
import StackScript.Template.Render

/-!
# Computations on objects are calm

Conversions, maps, structs, names, operators, aggregates and templates put neither a signal nor a
struct that is not there anywhere, and no fault of theirs is a signal. Only storing under the name of
the parent links structs.

Main statements: `Value.coerce_calm`, `TableRef.set_calm`, `Aggregate.setItem_calm` and
`Template.render_calm`.
-/
namespace StackScript

open StoreM (get_still modify_calm)

variable {L : Links} {n : Nat}

/-! ## Zero values and copies -/

namespace Value

theorem zeroPlain_calm (name : Option String) (kind : Kind) :
    Calm L n Ordinary (zeroNamed name (.plain kind)) := by
  cases kind with
  | array => exact StoreM.array_calm (by simp)
  | map => exact StoreM.map_calm (List.forall_mem_nil _)
  | struct => exact StoreM.struct_calm ⟨List.forall_mem_nil _, nofun⟩
  | waitGroup => exact StoreM.waitGroup_calm
  | mutex => exact StoreM.mutex_calm
  | _ => exact .pure trivial

mutual
theorem zeroNamed_calm {n : Nat} : (name : Option String) → (t : Ty) →
    Calm L n Ordinary (zeroNamed name t)
  | name, .named own t => zeroNamed_calm (name.or (some own)) t
  | _, .array _ => StoreM.array_calm (by simp)
  | _, .map _ _ => StoreM.map_calm (List.forall_mem_nil _)
  | _, .struct fields => (zeroFields_calm fields).bind fun n _ _ hv =>
    StoreM.struct_calm ⟨Association.forall_ofList (P := Ordinary n) hv, nofun⟩
  | _, .pointer _ => .pure trivial
  | _, .channel _ => .pure trivial
  | name, .plain kind => zeroPlain_calm name kind
theorem zeroFields_calm {n : Nat} : (fields : List (String × Ty)) →
    Calm L n (fun n values => ∀ e ∈ values, e.2.Ordinary n) (zeroFields fields)
  | [] => .pure (List.forall_mem_nil _)
  | (_, t) :: rest => (zeroNamed_calm none t).bind fun _ _ _ hv =>
    (zeroFields_calm rest).bind fun _ le _ hr => .pure (List.forall_mem_cons.2 ⟨hv.mono le, hr⟩)
end

theorem zero_calm (t : Ty) : Calm L n Ordinary (zero t) := zeroNamed_calm none t

theorem copyEntries_calm {α : Type} {copy : Value → StoreM Value}
    (hc : ∀ n v, v.Ordinary n → Calm L n Ordinary (copy v)) {n : Nat} :
    (entries : List (α × Value)) → (∀ e ∈ entries, e.2.Ordinary n) →
    Calm L n (fun n entries => ∀ e ∈ entries, e.2.Ordinary n) (copyEntries copy entries)
  | [], _ => .pure (List.forall_mem_nil _)
  | (_, v) :: rest, h => (hc n v (List.forall_mem_cons.1 h).1).bind fun _ le _ hv =>
    (copyEntries_calm hc rest fun e mem => ((List.forall_mem_cons.1 h).2 e mem).mono le).bind
      fun _ le _ hr => .pure (List.forall_mem_cons.2 ⟨hv.mono le, hr⟩)

theorem copyTo_calm (depth : Nat) {v : Value} (hv : v.Ordinary n) :
    Calm L n Ordinary (copyTo depth v) := by
  induction depth generalizing n v with
  | zero => exact .pure hv
  | succ depth ih =>
    cases v with
    | array r =>
      exact get_still.bind fun s hs => (Calm.arrayMapM upward upward (hs.array r) fun _ _ => ih).bind
        fun _ _ items hi => StoreM.array_calm hi
    | struct r =>
      exact get_still.bind fun s hs => (copyEntries_calm (fun _ _ => ih) _ (hs.struct r).fields).bind
        fun _ le fields hf => StoreM.struct_calm ⟨hf, ((hs.struct r).mono le).parent⟩
    | map r =>
      exact get_still.bind fun s hs => (copyEntries_calm (fun _ _ => ih) _ (hs.map r)).bind
        fun _ _ entries he => StoreM.map_calm he
    | _ => exact .pure hv

theorem copy_calm {v : Value} (hv : v.Ordinary n) : Calm L n Ordinary v.copy :=
  get_still.bind fun _ _ => copyTo_calm _ hv

/-! ## Conversions -/

theorem conversionFault_calm (v : Value) (t : Ty) : Calm L n Ordinary (conversionFault v t) :=
  get_still.bind fun _ _ => .throws rfl (by nofun)

theorem toText_calm (v : Value) : Calm L n Ordinary (toText v) := by
  refine get_still.bind fun s _ => ?_
  split
  · dsimp only
    split <;> exact .pure trivial
  · exact .pure trivial

theorem toBool_calm (v : Value) : Calm L n Ordinary (toBool v) := by
  unfold toBool
  split
  · split
    · exact .pure trivial
    · exact .pure trivial
    · exact conversionFault_calm _ _
  · exact .ite (.pure trivial) (conversionFault_calm _ _)

theorem toFloating_calm (kind : Kind) (v : Value) : Calm L n Ordinary (toFloating kind v) := by
  unfold toFloating
  dsimp only
  split
  · refine .pure ?_
    split <;> trivial
  · exact conversionFault_calm _ _

theorem ofInteger_ordinary (kind : Kind) (x : Int64) : (ofInteger kind x).Ordinary n := by
  unfold ofInteger
  split <;> trivial

theorem toInteger_calm (kind : Kind) (v : Value) : Calm L n Ordinary (toInteger kind v) := by
  unfold toInteger
  dsimp only
  split
  · exact .pure (ofInteger_ordinary _ _)
  · exact conversionFault_calm _ _

theorem zeroScalar_ordinary (kind : Kind) : (zeroScalar kind).Ordinary n := by cases kind <;> trivial

theorem coerceScalar_calm (kind : Kind) {v : Value} (hv : v.Ordinary n) :
    Calm L n Ordinary (coerceScalar kind v) :=
  .ite (.pure hv) <| .ite (.pure (zeroScalar_ordinary kind)) <| .ite (toText_calm v) <|
    .ite (toBool_calm v) <| .ite (toFloating_calm kind v) (toInteger_calm kind v)

theorem keyOf_still (v : Value) : Still L n (fun _ => True) (keyOf v) := by
  unfold keyOf
  split
  · exact Still.pure trivial
  · exact get_still.bind fun _ _ => .throws rfl (by nofun)

section

variable {toKey toItem : Value → StoreM Value}
  (key : ∀ n v, v.Ordinary n → Calm L n Ordinary (toKey v))
  (item : ∀ n v, v.Ordinary n → Calm L n Ordinary (toItem v))
include key item

theorem coerceEntries_calm {entries : List (Value × Value)} {done : List (MapKey × Value)}
    (he : ∀ e ∈ entries, e.1.Ordinary n ∧ e.2.Ordinary n) (hd : ∀ e ∈ done, e.2.Ordinary n) :
    Calm L n (fun n entries => ∀ e ∈ entries, e.2.Ordinary n)
      (coerceEntries toKey toItem entries done) := by
  induction entries generalizing n done with
  | nil => exact .pure hd
  | cons e rest ih =>
    obtain ⟨⟨hk, hv⟩, hr⟩ := List.forall_mem_cons.1 he
    refine (key n e.1 hk).bind fun _ le k _ => (keyOf_still k).bind fun _ _ =>
      (item _ e.2 (hv.mono le)).bind fun n le' v hv => ih (fun e mem => ?_) ?_
    · exact (hr e mem).imp (·.mono (le.trans le')) (·.mono (le.trans le'))
    · exact Association.forall_insert (P := Ordinary n)
        (fun e mem => (hd e mem).mono (le.trans le')) hv

theorem coerceToMap_calm (whole k t : Ty) {v : Value} (hv : v.Ordinary n) :
    Calm L n Ordinary (coerceToMap whole k t toKey toItem v) := by
  refine get_still.bind fun s hs => ?_
  split
  · exact zero_calm _
  · refine .ite (.pure hv) ?_
    refine (coerceEntries_calm key item ?_ (List.forall_mem_nil _)).bind
      fun _ _ _ he => StoreM.map_calm he
    intro e mem
    obtain ⟨entry, inside, rfl⟩ := List.mem_map.1 mem
    exact ⟨MapKey.toValue_ordinary _ _, hs.map _ entry inside⟩
  · refine (coerceEntries_calm key item ?_ (List.forall_mem_nil _)).bind
      fun _ _ _ he => StoreM.map_calm he
    intro e mem
    obtain ⟨k, -, found⟩ := List.mem_filterMap.1 mem
    obtain ⟨v, here, rfl⟩ := Option.map_eq_some_iff.1 found
    exact ⟨trivial, (hs.struct _).find? k v here⟩
  · exact conversionFault_calm _ _

end

theorem coerceToStruct_calm (whole : Ty) {v : Value} (hv : v.Ordinary n) :
    Calm L n Ordinary (coerceToStruct whole v) := by
  unfold coerceToStruct
  split
  · exact zero_calm _
  · exact .pure hv
  · refine get_still.bind fun s hs => StoreM.struct_calm ⟨fun e mem => ?_, nofun⟩
    obtain ⟨⟨k, v⟩, inside, field⟩ := List.mem_filterMap.1 mem
    cases k <;> cases field
    exact hs.map _ _ inside
  · exact conversionFault_calm _ _

theorem coerceToKind_calm (whole : Ty) (kind : Kind) {v : Value} (hv : v.Ordinary n) :
    Calm L n Ordinary (coerceToKind whole kind v) := by
  unfold coerceToKind
  split
  · exact zero_calm _
  · exact .pure (show (Fault.native _).Ordinary from .of_kind rfl (by nofun))
  · exact .ite (.pure hv) (conversionFault_calm _ _)

theorem unchanged_calm (n : Nat) (v : Value) (hv : v.Ordinary n) : Calm L n Ordinary (unchanged v) :=
  .ite (.throws rfl (by nofun)) (.pure hv)

theorem coerceAs_calm {n : Nat} : (t whole : Ty) → {v : Value} → v.Ordinary n →
    Calm L n Ordinary (coerceAs whole t v)
  | .named _ t, whole, _, hv => .ite (.throws rfl (by nofun)) (coerceAs_calm t whole hv)
  | .pointer _, _, _, hv => .ite (.throws rfl (by nofun)) (.pure hv)
  | .array element, whole, v, hv => by
    refine .ite (.throws rfl (by nofun)) ?_
    dsimp only
    split
    · exact zero_calm _
    · refine get_still.bind fun s hs => .ite (.pure hv) ?_
      exact (Calm.arrayMapM upward upward (hs.array _) fun _ _ => coerceAs_calm element element).bind
        fun _ _ _ hi => StoreM.array_calm hi
    · refine .ite (StoreM.array_calm fun v mem => ?_) (conversionFault_calm _ _)
      obtain ⟨b, -, rfl⟩ := List.mem_map.1 (List.mem_toArray.1 mem)
      trivial
    · exact conversionFault_calm _ _
  | .map key value, _, _, hv => .ite (.throws rfl (by nofun))
    (coerceToMap_calm (fun _ _ => coerceAs_calm key key) (fun _ _ => coerceAs_calm value value)
      _ _ _ hv)
  | .struct _, whole, _, hv => .ite (.throws rfl (by nofun)) (coerceToStruct_calm whole hv)
  | .channel _, whole, _, hv => .ite (.throws rfl (by nofun)) (coerceToKind_calm whole .channel hv)
  | .plain kind, whole, _, hv => .ite (.throws rfl (by nofun)) <| .ite (.pure hv) <|
    .ite (coerceScalar_calm kind hv) <|
    .ite (coerceToMap_calm unchanged_calm unchanged_calm _ _ _ hv) <|
    .ite (coerceToStruct_calm whole hv) (coerceToKind_calm whole kind hv)

theorem coerce_calm {v : Value} (hv : v.Ordinary n) (t : Ty) : Calm L n Ordinary (v.coerce t) :=
  coerceAs_calm t t hv

theorem promote_calm {a b : Value} (ha : a.Ordinary n) (hb : b.Ordinary n) :
    Calm L n (fun n ab => ab.1.Ordinary n ∧ ab.2.Ordinary n) (promote a b) :=
  .ite (.pure ⟨ha, hb⟩) <| (coerce_calm ha _).bind fun _ le _ ha =>
    (coerce_calm (hb.mono le) _).bind fun _ le _ hb => .pure ⟨ha.mono le, hb⟩

end Value

/-! ## Maps -/

namespace MapRef

variable (r : MapRef) {k v : Value} (hk : k.Ordinary n)
include hk

theorem key_calm : Calm L n (fun _ _ => True) (r.key k) :=
  get_still.bind fun _ _ => (Value.coerce_calm hk _).bind fun _ _ k _ =>
    (Value.keyOf_still k).calm fun _ _ => trivial

theorem find_calm : Calm L n Value.Ordinary (r.find k) := by
  refine (r.key_calm hk).bind fun n _ key _ => get_still.bind fun s hs => ?_
  dsimp only
  split
  · next found => exact .pure (Association.forall_find? (P := Value.Ordinary n) (hs.map r) _ found)
  · exact Value.zero_calm _

theorem contains_calm : Calm L n (fun _ _ => True) (r.contains k) :=
  StoreM.tryCatch_calm ((r.key_calm hk).bind fun _ _ _ _ => get_still.bind fun _ _ => .pure trivial)
    fun _ _ => .pure trivial

omit hk in
theorem refuse_calm (k : Value) : Calm L n (fun _ _ => True) (refuse k) :=
  get_still.bind fun _ _ => .throws rfl (by nofun)

theorem set_calm (hv : v.Ordinary n) : Calm L n (fun _ _ => True) (r.set k v) := by
  refine get_still.bind fun _ _ => .ite (refuse_calm k) <| (r.key_calm hk).bind fun _ le _ _ =>
    (Value.coerce_calm (hv.mono le) _).bind fun n _ _ hv =>
      modify_calm (fun _ hs => hs.modifyMap (fun _ hm => ?_) r) fun _ => rfl
  exact Association.forall_insert (P := Value.Ordinary n) hm hv

theorem delete_calm : Calm L n (fun _ _ => True) (r.delete k) := by
  refine get_still.bind fun _ _ => .ite ((refuse_calm k).bind fun _ _ _ _ => .pure trivial) <|
    (r.key_calm hk).bind fun n _ _ _ =>
      (modify_calm (fun _ hs => hs.modifyMap (fun _ hm => ?_) r) fun _ => rfl).bind
        fun _ _ _ _ => .pure trivial
  exact Association.forall_erase (P := Value.Ordinary n) hm

end MapRef

/-! ## Structs -/

/-- Storing the value under the name of the parent makes this the parent. -/
def Value.AsParent : Value → Option StructRef → Prop
  | .struct p, parent => parent = some p
  | .nil, parent => parent = none
  | _, _ => False

namespace StructRef

variable {o : StructObject} {v : Value}

theorem conformField_calm (o : StructObject) (name : String) (hv : v.Ordinary n) :
    Calm L n Value.Ordinary (conformField o name v) := by
  unfold conformField
  split
  · exact .pure hv
  · split
    · exact Value.coerce_calm hv _
    · exact .ite (.pure hv) (.throws rfl (by nofun))

/-- What a struct is after storing a value in it: clear, with the parent it had unless that was
stored. -/
def Stored (o : StructObject) (name : String) (v : Value) (n : Nat) (o' : StructObject) : Prop :=
  o'.Clear n ∧ (o'.parent = o.parent ∨ Reserved.ofName? name = some .parent ∧ v.AsParent o'.parent)

theorem setGuarded_calm (ho : o.Clear n) (name : String) (hv : v.Ordinary n) :
    Calm L n (Stored o name v) (setGuarded o name v) := by
  unfold setGuarded
  split
  · exact get_still.bind fun _ _ => .pure ⟨{ ho with }, .inl rfl⟩
  · next parent =>
    split
    · refine .pure ⟨{ ho with parent := ?_ }, .inr ⟨parent, rfl⟩⟩
      rintro _ ⟨⟩
      exact hv
    · exact .pure ⟨{ ho with parent := nofun }, .inr ⟨parent, rfl⟩⟩
    · exact .throws rfl (by nofun)
  · refine (conformField_calm o name hv).bind fun n le _ hv =>
      .pure ⟨⟨?_, (ho.mono le).parent⟩, .inl rfl⟩
    exact Association.forall_insert (P := Value.Ordinary n) (ho.mono le).fields hv

theorem stored_calm (ho : o.Clear n) (name : String) (hv : v.Ordinary n) :
    Calm L n (Stored o name v) (stored o name v) := by
  unfold stored
  split
  · exact .pure ⟨{ ho with }, .inl rfl⟩
  · exact .pure ⟨{ ho with }, .inl rfl⟩
  · exact .ite (.throws rfl (by nofun)) (setGuarded_calm ho name hv)

/-- Storing a value in a struct, which is linked if the value is stored as its parent. -/
theorem set_calm (r : StructRef) (name : String) (hv : v.Ordinary n)
    (links : Reserved.ofName? name = some .parent → ∀ parent, v.AsParent parent → L r parent) :
    Calm L n (fun _ _ => True) (r.set name v) := by
  intro s clear size
  obtain ⟨clear', kin, result, ordinary, -⟩ :=
    stored_calm (L := L) (Store.Clear.struct clear r) name hv s clear size
  change (stored (s.struct r) name v s).2.Clear _ at clear'
  have ran : Stateful.run (r.set name v) s = match stored (s.struct r) name v s with
      | (.ok o, s') => (.ok (), s'.modifyStruct r fun _ => o)
      | (.error f, s') => (.error f, s') := by
    refine (Stateful.run_bind (stored (s.struct r) name v) _ s).trans ?_
    simp only [Stateful.run]
    rcases stored (s.struct r) name v s with ⟨f | o, s'⟩ <;> rfl
  simp only [Stateful.run, Stateful.store] at clear' kin result ordinary
  rcases here : stored (s.struct r) name v s with ⟨f | o, s'⟩ <;>
    rw [here] at clear' kin result ordinary ran
  · constructor <;> rw [ran]
    · exact clear'
    · exact kin
    · rintro _ ⟨⟩
    · exact .error (ordinary f rfl)
    · exact fun _ => ran
  · obtain ⟨ho, parent⟩ := result o rfl
    have stored := clear'.modifyStruct (f := fun _ => o) (fun _ _ => ho) r
    constructor <;> rw [ran]
    · exact stored.size.symm ▸ stored
    · exact kin.modifyStruct (parent.imp_right fun given => links given.1 _ given.2)
    · exact fun _ _ => trivial
    · exact .ok ()
    · exact fun _ => ran

theorem delete_calm (r : StructRef) (name : String) :
    Calm L n (fun _ _ => True) (r.delete name) := by
  refine get_still.bind fun _ _ => .ite (.throws rfl (by nofun)) <|
    StoreM.modifyStruct_calm r (fun o ho => { ho with fields := ?_ }) fun _ => rfl
  exact Association.forall_erase (P := Value.Ordinary n) ho.fields

end StructRef

/-! ## Names -/

namespace TableRef

variable (r : TableRef) (name : String) {v : Value}

theorem set_calm (hv : v.Ordinary n) : Calm L n (fun _ _ => True) (r.set name v) := by
  refine get_still.bind fun s _ => ?_
  split
  · exact .throws rfl (by nofun)
  · next t _ =>
    refine get_still.bind fun s _ => ?_
    split
    · exact .throws rfl (by nofun)
    · have stores {n : Nat} {v : Value} (hv : v.Ordinary n) (b : Binding) : Calm L n (fun _ _ => True)
          (modify fun s => s.modifyTable t fun table =>
            table.bind name { b with value := v, bound := true } : StoreM Unit) :=
        modify_calm (fun _ hs => hs.bind hv t) fun _ => rfl
      exact .ite (.throws rfl (by nofun)) (.ite ((Value.copy_calm hv).bind fun _ _ _ hv => stores hv _)
        ((Still.pure hv).bind fun _ hv => stores hv _))

theorem create_calm : Calm L n (fun _ _ => True) (r.create name) :=
  get_still.bind fun _ _ => .ite (.throws rfl (by nofun)) <|
    modify_calm (fun _ hs => hs.bind (by trivial) r) fun _ => rfl

theorem setConstant_calm (hv : v.Ordinary n) : Calm L n (fun _ _ => True) (r.setConstant name v) :=
  get_still.bind fun _ _ => .ite (.throws rfl (by nofun)) <|
    modify_calm (fun _ hs => hs.bind hv r) fun _ => rfl

theorem delete_calm (force : Bool) : Calm L n (fun _ _ => True) (r.delete name force) := by
  refine get_still.bind fun s _ => ?_
  split
  · exact .throws rfl (by nofun)
  · refine .ite (.throws rfl (by nofun)) <|
      modify_calm (fun _ hs => hs.modifyTable (fun _ ht => ?_) r) fun _ => rfl
    exact Association.forall_erase (P := fun b : Binding => b.value.Ordinary n) ht

end TableRef

/-! ## Operators -/

namespace Operator

variable {a b : Value}

theorem refuse_calm {α : Type} {P : Nat → α → Prop} (a b : Value) :
    Calm L n P (refuse a b : StoreM α) :=
  get_still.bind fun _ _ => .throws rfl (by nofun)

theorem unify_calm (level : Strictness) (ha : a.Ordinary n) (hb : b.Ordinary n) :
    Calm L n (fun n ab => ab.1.Ordinary n ∧ ab.2.Ordinary n) (unify level a b) := by
  refine .ite (.pure ⟨ha, hb⟩) ?_
  cases level with
  | strict => exact get_still.bind fun _ _ => .throws rfl (by nofun)
  | relaxed => exact Value.promote_calm ha hb
  | dynamic =>
    exact StoreM.tryCatch_calm (Value.promote_calm ha hb) fun _ _ =>
      get_still.bind fun _ _ => .pure ⟨trivial, trivial⟩

/-- An operation that raises no signal. -/
structure Calms (f : Arithmetic) : Prop where
  whole : ∀ {x y kind}, f.whole x y = .error kind → kind ≠ .debuggerSignal
  fraction : ∀ {x y kind}, f.fraction x y = .error kind → kind ≠ .debuggerSignal

theorem addition_calms : Calms addition := ⟨nofun, nofun⟩

theorem subtraction_calms : Calms subtraction := ⟨nofun, nofun⟩

theorem multiplication_calms : Calms multiplication := ⟨nofun, nofun⟩

theorem division_calms : Calms division := by
  constructor <;>
  · intro x y kind failed
    simp only [division] at failed
    split at failed <;> cases failed
    nofun

theorem remainder_calms : Calms remainder := by
  constructor <;>
  · intro x y kind failed
    simp only [remainder] at failed
    split at failed <;> cases failed
    nofun

theorem power_calms : Calms power := by
  refine ⟨fun {x y kind} failed => ?_, nofun⟩
  simp only [power] at failed
  split at failed <;> cases failed

theorem settle_calm {α : Type} {r : Except FaultKind α}
    (h : ∀ {kind}, r = .error kind → kind ≠ .debuggerSignal) {wrap : α → Value}
    (plain : ∀ x, (wrap x).Ordinary n) : Calm L n Value.Ordinary (settle r wrap) := by
  cases r with
  | ok x => exact .pure (plain x)
  | error kind => exact .throws rfl (h rfl)

theorem apply_calm {f : Arithmetic} (h : Calms f) (a b : Value) :
    Calm L n Value.Ordinary (f.apply a b) := by
  unfold Arithmetic.apply
  split <;> first
    | exact settle_calm h.whole fun _ => trivial
    | exact settle_calm h.fraction fun _ => trivial
    | exact refuse_calm _ _

theorem add_calm (ha : a.Ordinary n) (hb : b.Ordinary n) : Calm L n Value.Ordinary (add a b) := by
  unfold add
  split
  · exact get_still.bind fun s hs => StoreM.array_calm fun v mem =>
      (Array.mem_append.1 mem).elim (hs.array _ v) (hs.array _ v)
  · exact get_still.bind fun s hs => (Value.coerce_calm hb _).bind fun _ le _ hv =>
      StoreM.array_calm (Array.forall_push ((hs.array _).mono le) hv)
  · exact get_still.bind fun s hs => StoreM.struct_calm ⟨Association.forall_foldl_insert
      (P := Value.Ordinary n) (hs.struct _).fields (hs.struct _).fields, (hs.struct _).parent⟩
  · exact .pure trivial
  · exact apply_calm addition_calms _ _

theorem subtract_calm (a b : Value) : Calm L n Value.Ordinary (subtract a b) := by
  unfold subtract
  split
  · exact .pure trivial
  · exact get_still.bind fun s hs => StoreM.array_calm fun v mem =>
      hs.array _ v (Array.mem_filter.1 mem).1
  · exact apply_calm subtraction_calms _ _

theorem negate_calm (v : Value) : Calm L n Value.Ordinary (negate v) := by
  unfold negate
  split <;> first | exact .pure trivial | exact get_still.bind fun _ _ => .throws rfl (by nofun)

theorem bitwise_calm (whole : Int64 → Int64 → Int64) (bools : Bool → Bool → Bool) (a b : Value) :
    Calm L n Value.Ordinary (bitwise whole bools a b) := by
  have calms : Calms ⟨fun x y => .ok (whole x y), fun _ _ => .error .invalidType⟩ := by
    refine ⟨nofun, fun failed => ?_⟩
    cases failed
    nofun
  unfold bitwise
  split
  · exact .pure trivial
  · exact .ite (apply_calm calms _ _) (refuse_calm _ _)

theorem shift_calm (a b : Value) : Calm L n Value.Ordinary (shift a b) :=
  .ite (get_still.bind fun _ _ => Value.coerce_calm (by trivial) _) (refuse_calm _ _)

theorem ordered_calm (test : Ordering → Bool) (a b : Value) :
    Calm L n Value.Ordinary (ordered test a b) := by
  unfold ordered
  split
  · exact .pure trivial
  · exact refuse_calm _ _

end Operator

/-! ## Aggregates -/

namespace Aggregate

variable {container index v : Value}

theorem place_still (v : Value) (size : Nat) : Still L n (fun _ => True) (place v size) := by
  refine StoreM.still_of fun s clear => ⟨clear, rfl, fun _ _ => trivial, ?_⟩
  change Except.Ordinary (indexIn v size s)
  unfold indexIn
  split
  · exact .about (by nofun)
  · exact .ite (.about (by nofun)) (.ok _)

theorem charValue_ordinary (c : Char) : (charValue c).Ordinary n := by
  unfold charValue
  split <;> trivial

theorem item_calm (hi : index.Ordinary n) : Calm L n Value.Ordinary (item container index) := by
  unfold item
  split
  · exact get_still.bind fun s hs => (place_still _ _).bind fun i _ =>
      .pure (Array.forall_getD (P := Value.Ordinary n) (hs.array _) (by trivial) i)
  · exact (place_still _ _).bind fun _ _ => .pure (charValue_ordinary _)
  · exact MapRef.find_calm _ hi
  · refine get_still.bind fun s hs => ?_
    dsimp only
    split
    · next found => exact .pure ((hs.struct _).getInherited? hs _ _ found)
    · exact .throws rfl (by rintro ⟨⟩)
  · exact get_still.bind fun _ _ => .throws rfl (by rintro ⟨⟩)

/-- Storing the value under the index gives a struct this parent. -/
def Relinks (s : Store) (container index v : Value) : Links := fun r parent =>
  container = .struct r ∧ Reserved.ofName? (index.display s) = some .parent ∧ v.AsParent parent

/-- Storing under an index links structs only as the index says. -/
theorem setItem_calm {s : Store} (hs : s.Clear n) (hi : index.Ordinary n) (hv : v.Ordinary n) :
    CalmAt (Relinks s container index v) (fun _ _ => True) (setItem container index v) s := by
  have here {m : StoreM Unit} (h : Calm (Relinks s container index v) n (fun _ _ => True) m) :
      CalmAt (Relinks s container index v) (fun _ _ => True) m s := h s hs hs.size
  unfold setItem
  split
  · refine here <| (StoreM.read_still (R := fun _ => True) fun _ _ => trivial).bind
      fun (readonly, size, element) _ => .ite (get_still.bind fun _ _ => .throws rfl (by nofun)) <|
        (place_still index size).bind fun i _ => (Value.coerce_calm hv element).bind fun _ _ _ hv =>
          modify_calm (fun _ hs => hs.modifyArray (fun a ha w mem => ?_) _) fun _ => rfl
    exact (Array.mem_or_eq_of_mem_setIfInBounds mem).elim (ha w) fun same => same ▸ hv
  · exact here (MapRef.set_calm _ hi hv)
  · next r =>
    refine (get_still s hs hs.size).bind fun _ _ got => ?_
    cases got
    exact here (r.set_calm (index.display s) hv fun named _ given => ⟨rfl, named, given⟩)
  · exact here (get_still.bind fun _ _ => .throws rfl (by nofun))

theorem slice_calm (container lo hi : Value) : Calm L n Value.Ordinary (slice container lo hi) := by
  refine get_still.bind fun s hs => ?_
  split
  · exact .throws rfl (by nofun)
  · split
    · exact .throws rfl (by nofun)
    · split
      · exact StoreM.array_calm (Array.forall_extract (hs.array _) _ _)
      · exact .pure trivial
      · exact .throws rfl (by nofun)

theorem field?_ordinary {s : Store} (hs : s.Clear n) (r : StructRef) (name : String)
    (inherited : Bool) : ∀ v ∈ field? s r name inherited, v.Ordinary n := by
  unfold field?
  dsimp only
  split
  · next found =>
    rintro _ ⟨⟩
    exact (hs.struct r).get? name _ found
  · intro v found
    exact (hs.struct r).getInherited? hs name v (Option.filter_eq_some_iff.1 found).1

theorem part_calm (v : Value) (name : String) {n : Nat} {part : Option Value}
    (hp : ∀ v ∈ part, v.Ordinary n) : Calm L n Value.Ordinary
      (match part.or ((Native.method? v.kind name).map Value.native) with
        | some v => pure v
        | none => throw (.about .invalidField name) : StoreM Value) := by
  split
  · next v here =>
    rcases Option.or_eq_some_iff.1 here with own | ⟨-, method⟩
    · exact .pure (hp v own)
    · obtain ⟨f, -, rfl⟩ := Option.map_eq_some_iff.1 method
      exact .pure trivial
  · exact .throws rfl (by rintro ⟨⟩)

theorem member_calm (v : Value) (name : String) (inherited : Bool) :
    Calm L n Value.Ordinary (member v name inherited) := by
  unfold member
  split
  · exact get_still.bind fun s hs => (Still.pure (field?_ordinary hs _ _ _)).bind fun _ => part_calm _ name
  · refine (Calm.map (Q := fun n found => ∀ v ∈ found, v.Ordinary n) (MapRef.find_calm _ (by trivial))
      fun _ v hv => ?_).bind fun _ _ _ => part_calm _ name
    rintro _ ⟨⟩
    exact hv
  · exact (Still.pure (by rintro _ ⟨⟩)).bind fun _ => part_calm _ name

theorem pairs_ordinary {vs : List Value} (h : ∀ v ∈ vs, v.Ordinary n) :
    ∀ e ∈ pairs vs, e.1.Ordinary n ∧ e.2.Ordinary n := by
  fun_induction pairs vs with
  | case1 k v rest ih =>
    simp only [List.forall_mem_cons] at h ⊢
    exact ⟨⟨h.1, h.2.1⟩, ih h.2.2⟩
  | case2 => exact List.forall_mem_nil _

theorem copies_calm (hv : v.Ordinary n) (count : Nat) {done : Array Value}
    (hd : ∀ v ∈ done, v.Ordinary n) :
    Calm L n (fun n items => ∀ v ∈ items, v.Ordinary n) (copies v count done) := by
  induction count generalizing n done with
  | zero => exact .pure hd
  | succ count ih =>
    exact (Value.copy_calm hv).bind fun _ le _ copied =>
      ih (hv.mono le) (Array.forall_push (fun v mem => (hd v mem).mono le) copied)

section

variable {entries : List (Value × Value)} (he : ∀ e ∈ entries, e.1.Ordinary n ∧ e.2.Ordinary n)
include he

theorem mapOf_calm (t : Ty) : Calm L n Value.Ordinary (mapOf t entries) := by
  refine (StoreM.map_calm (fun _ mem => by cases mem)).bind fun n' le v hv => ?_
  cases v with
  | map r =>
    have sets {n : Nat} {entries : List (Value × Value)}
        (he : ∀ e ∈ entries, e.1.Ordinary n ∧ e.2.Ordinary n) :
        Calm L n (fun _ _ => True) (forIn entries PUnit.unit fun x _ => do
          r.set x.1 x.2
          pure (ForInStep.yield PUnit.unit) : StoreM PUnit) := by
      induction entries generalizing n with
      | nil => exact .pure trivial
      | cons e rest ih =>
        obtain ⟨⟨hk, hv⟩, hr⟩ := List.forall_mem_cons.1 he
        simp only [List.forIn_cons, bind_assoc, pure_bind]
        exact (r.set_calm hk hv).bind fun _ le _ _ =>
          ih fun e mem => (hr e mem).imp (·.mono le) (·.mono le)
    exact (sets fun e mem => (he e mem).imp (·.mono le) (·.mono le)).bind fun _ _ _ _ => .pure trivial
  | _ => exact .pure hv

theorem packageOf_calm (name : String) : Calm L n Value.Ordinary (packageOf name entries) :=
  get_still.bind fun _ _ => StoreM.struct_calm ⟨Association.forall_foldl_insert
    (P := Value.Ordinary n) (List.forall_mem_nil _) fun e mem => (he e mem).2, nofun⟩

theorem structOf_calm : Calm L n Value.Ordinary (structOf entries) := by
  have builds : Calm L n StructObject.Clear (entries.foldlM (fun (o : StructObject) e => do
      StructRef.stored o (e.1.display (← get)) e.2) {} : StoreM StructObject) := by
    refine Calm.foldlM (P := fun n e => e.1.Ordinary n ∧ e.2.Ordinary n)
      (fun _ _ _ h le => h.imp (·.mono le) (·.mono le)) he .empty fun n o e ho hv => ?_
    refine get_still.bind fun s _ => ?_
    rw [← bind_pure (StructRef.stored o (e.1.display s) e.2)]
    exact (StructRef.stored_calm ho _ hv.2).bind fun _ _ _ stored => .pure stored.1
  exact builds.bind fun _ _ _ ho => StoreM.struct_calm ho

end

end Aggregate

/-! ## Templates -/

namespace Template

theorem missingField_calm {α : Type} {P : Nat → α → Prop} (name : String) :
    Calm L n P (missingField name : StoreM α) := .throws rfl (by nofun)

theorem field_calm (name : String) {v : Value} (hv : v.Ordinary n) :
    Calm L n Value.Ordinary (field name v) := by
  refine get_still.bind fun s hs => ?_
  split
  · split
    · next found => exact .pure ((hs.struct _).getInherited? hs _ _ found)
    · exact missingField_calm name
  · exact MapRef.find_calm _ trivial
  · split
    · split
      · next found => exact .pure (hs.array _ _ (Array.mem_of_getElem? found))
      · exact missingField_calm name
    · exact missingField_calm name
  · exact .pure trivial
  · exact missingField_calm name

theorem follow_calm (names : List String) {v : Value} (hv : v.Ordinary n) :
    Calm L n Value.Ordinary (follow v names) := by
  induction names generalizing n v with
  | nil => exact .pure hv
  | cons name rest ih => exact (field_calm name hv).bind fun _ _ _ => ih

theorem eval_calm {data : Value} (hd : data.Ordinary n) :
    (e : Expr) → Calm L n Value.Ordinary (e.eval data)
  | .here => .pure hd
  | .string _ => .pure trivial
  | .int _ => .pure trivial
  | .not inner => (eval_calm hd inner).bind fun _ _ _ _ => .pure trivial
  | .path names => follow_calm names hd

theorem entry_calm (r : MapRef) {k : Value} (hk : k.Ordinary n) :
    Calm L n Value.Ordinary (entry r k) :=
  StoreM.tryCatch_calm (r.find_calm hk) fun _ _ => .pure trivial

theorem elements_calm (v : Value) :
    Calm L n (fun n items => ∀ v ∈ items, v.Ordinary n) (elements v) := by
  refine get_still.bind fun s hs => ?_
  split
  · exact .pure fun v mem => hs.array _ v (Array.mem_toList_iff.1 mem)
  · refine Calm.listMapM Value.upward Value.upward (fun k mem => ?_) fun _ _ => entry_calm _
    obtain ⟨key, -, rfl⟩ := List.mem_map.1 mem
    exact MapKey.toValue_ordinary _ _
  · refine .pure fun v mem => ?_
    obtain ⟨k, -, found⟩ := List.mem_filterMap.1 mem
    exact (hs.struct _).find? k v found
  · exact .pure (List.forall_mem_nil _)
  · exact .throws rfl (by nofun)

mutual
theorem renderNode_calm {n : Nat} {data : Value} (hd : data.Ordinary n) : (node : Node) →
    Calm L n (fun _ _ => True) (renderNode data node)
  | .literal _ => .pure trivial
  | .output e => (eval_calm hd e).bind fun _ _ _ _ =>
    .ite (.pure trivial) (get_still.bind fun _ _ => .pure trivial)
  | .choice condition body otherwise => (eval_calm hd condition).bind fun _ le _ _ =>
    .ite (renderNodes_calm (hd.mono le) body) (renderOption_calm (hd.mono le) otherwise)
  | .range e body => (eval_calm hd e).bind fun _ _ v _ => (elements_calm v).bind fun _ _ _ hi =>
    (Calm.listMapM Value.upward (fun _ _ _ h _ => h) hi fun _ _ hv => renderNodes_calm hv body).bind
      fun _ _ _ _ => .pure trivial

theorem renderNodes_calm {n : Nat} {data : Value} (hd : data.Ordinary n) : (nodes : List Node) →
    Calm L n (fun _ _ => True) (renderNodes data nodes)
  | [] => .pure trivial
  | node :: rest => (renderNode_calm hd node).bind fun _ le _ _ =>
    (renderNodes_calm (hd.mono le) rest).bind fun _ _ _ _ => .pure trivial

theorem renderOption_calm {n : Nat} {data : Value} (hd : data.Ordinary n) :
    (nodes : Option (List Node)) → Calm L n (fun _ _ => True) (renderOption data nodes)
  | none => .pure trivial
  | some nodes => renderNodes_calm hd nodes
end

theorem render_calm (t : Template) {data : Value} (hd : data.Ordinary n) :
    Calm L n (fun _ _ => True) (t.render data) := renderNodes_calm hd t.nodes

end Template

end StackScript
