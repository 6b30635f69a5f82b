import StackScript.Machine.Aggregate
import StackScript.Machine.Operator

/-!
# What computations on the store add

Conversions and operators make new objects and change none, nor do they touch code units and
tables. `AddsObjects` are the relations between stores that such a computation cannot leave, and
`Within` says that a computation stays in one and raises no control signal.

Main statements: `coerce_within`, one lemma for each family of operators, and `Aggregate.item_within`.
-/
namespace StackScript

/-- A relation between stores that holds on to everything but new objects. -/
structure Store.AddsObjects (R : Store → Store → Prop) : Prop where
  refl (s : Store) : R s s
  trans {a b c : Store} : R a b → R b c → R a c
  array (s : Store) (o : ArrayObject) : R s (s.newArray o).2
  struct (s : Store) (o : StructObject) : R s (s.newStruct o).2
  map (s : Store) (o : MapObject) : R s (s.newMap o).2
  waitGroup (s : Store) : R s s.newWaitGroup.2
  mutex (s : Store) : R s s.newMutex.2

/-- New objects leave the code units alone. -/
theorem Store.addsObjects_codes : Store.AddsObjects fun s s' => s'.codes = s.codes where
  refl _ := rfl
  trans h k := k.trans h
  array _ _ := rfl
  struct _ _ := rfl
  map _ _ := rfl
  waitGroup _ := rfl
  mutex _ := rfl

/-- New objects leave the tables alone. -/
theorem Store.addsObjects_tables : Store.AddsObjects fun s s' => s'.tables = s.tables where
  refl _ := rfl
  trans h k := k.trans h
  array _ _ := rfl
  struct _ _ := rfl
  map _ _ := rfl
  waitGroup _ := rfl
  mutex _ := rfl

namespace StoreM

variable {α β : Type} {R : Store → Store → Prop}

theorem bind_ok {m : StoreM α} {f : α → StoreM β} {s s' : Store} {b : β}
    (h : (m >>= f) s = (.ok b, s')) :
    ∃ a s₁, m s = (.ok a, s₁) ∧ f a s₁ = (.ok b, s') := by
  simp only [Bind.bind, ExceptT.bind, ExceptT.mk, StateT.bind] at h
  rcases hm : m s with ⟨r, s₁⟩
  rw [hm] at h
  cases r with
  | error f => cases h
  | ok a => exact ⟨a, s₁, rfl, h⟩

theorem get_eq (s : Store) : (get : StoreM Store) s = (.ok s, s) := rfl

theorem bind_of_ok {m : StoreM α} {f : α → StoreM β} {a : α} {s s' : Store}
    (h : m s = (.ok a, s')) : (m >>= f) s = f a s' := by
  simp only [Bind.bind, ExceptT.bind, ExceptT.mk, StateT.bind, h]
  rfl

theorem bind_of_error {m : StoreM α} {f : α → StoreM β} {e : Fault} {s s' : Store}
    (h : m s = (.error e, s')) : (m >>= f) s = (.error e, s') := by
  simp only [Bind.bind, ExceptT.bind, ExceptT.mk, StateT.bind, h]
  rfl

/-- A computation takes a store to a related one, whether it fails or not, and no fault of it
controls the run. -/
def Within (R : Store → Store → Prop) (m : StoreM α) : Prop :=
  ∀ s, R s (m s).2 ∧ ∀ f, (m s).1 = .error f → f.kind.isControl = false

namespace Within

theorem store {m : StoreM α} (h : Within R m) (s : Store) : R s (m s).2 := (h s).1

theorem imp {R' : Store → Store → Prop} {m : StoreM α} (h : Within R m)
    (imp : ∀ {s s'}, R s s' → R' s s') : Within R' m := fun s => ⟨imp (h s).1, (h s).2⟩

theorem of_ok {m : StoreM α} (h : ∀ s, R s (m s).2) (ok : ∀ s, ∃ a, (m s).1 = .ok a) :
    Within R m := by
  refine fun s => ⟨h s, fun f failed => ?_⟩
  obtain ⟨a, ha⟩ := ok s
  rw [ha] at failed
  cases failed

theorem pure (h : Store.AddsObjects R) (a : α) : Within R (Pure.pure a : StoreM α) :=
  .of_ok h.refl fun _ => ⟨a, rfl⟩

theorem throw (h : Store.AddsObjects R) {f : Fault} (noControl : f.kind.isControl = false) :
    Within R (MonadExcept.throw f : StoreM α) := by
  refine fun s => ⟨h.refl s, fun f' failed => ?_⟩
  cases failed
  exact noControl

theorem get (h : Store.AddsObjects R) : Within R (MonadState.get : StoreM Store) :=
  .of_ok h.refl fun s => ⟨s, rfl⟩

theorem ite {p : Prop} [Decidable p] {yes no : StoreM α} (hyes : Within R yes)
    (hno : Within R no) : Within R (if p then yes else no) := by
  split
  · exact hyes
  · exact hno

theorem bind (h : Store.AddsObjects R) {m : StoreM α} {f : α → StoreM β} (hm : Within R m)
    (hf : ∀ a, Within R (f a)) : Within R (m >>= f) := by
  intro s
  have first := hm s
  simp only [Bind.bind, ExceptT.bind, ExceptT.mk, StateT.bind]
  rcases hr : m s with ⟨r, s'⟩
  rw [hr] at first
  cases r with
  | error f => exact ⟨first.1, fun f' failed => first.2 f' (by cases failed; rfl)⟩
  | ok a => exact ⟨h.trans first.1 (hf a s').1, (hf a s').2⟩

theorem map (h : Store.AddsObjects R) {m : StoreM α} (hm : Within R m) (f : α → β) :
    Within R (f <$> m) := by
  have : f <$> m = m >>= fun a => Pure.pure (f a) := by simp
  rw [this]
  exact hm.bind h fun a => .pure h (f a)

theorem tryCatch (h : Store.AddsObjects R) {m : StoreM α} {f : Fault → StoreM α} (hm : Within R m)
    (hf : ∀ e, Within R (f e)) : Within R (MonadExcept.tryCatch m f) := by
  intro s
  have first := hm s
  simp only [MonadExcept.tryCatch, tryCatchThe, MonadExceptOf.tryCatch, ExceptT.tryCatch,
    ExceptT.mk, Bind.bind, StateT.bind]
  rcases hr : m s with ⟨r, s'⟩
  rw [hr] at first
  cases r with
  | error e => exact ⟨h.trans first.1 (hf e s').1, (hf e s').2⟩
  | ok a => exact first

theorem mapM (h : Store.AddsObjects R) {f : α → StoreM β} (hf : ∀ a, Within R (f a))
    (items : Array α) : Within R (items.mapM f) := by
  rw [Array.mapM_eq_foldlM, ← Array.foldlM_toList]
  generalize (#[] : Array β) = start
  induction items.toList generalizing start with
  | nil => exact .pure h _
  | cons a rest ih =>
    rw [List.foldlM_cons]
    exact .bind h (.bind h (hf a) fun _ => .pure h _) ih

theorem listMapM (h : Store.AddsObjects R) {f : α → StoreM β} (hf : ∀ a, Within R (f a))
    (items : List α) : Within R (items.mapM f) := by
  induction items with
  | nil => exact .pure h _
  | cons a rest ih =>
    rw [List.mapM_cons]
    exact .bind h (hf a) fun _ => .bind h ih fun _ => .pure h _

theorem array (h : Store.AddsObjects R) (element : Ty) (items : Array Value) :
    Within R (StoreM.array element items) := .of_ok (fun s => h.array s _) fun _ => ⟨_, rfl⟩

theorem struct (h : Store.AddsObjects R) (o : StructObject) : Within R (StoreM.struct o) :=
  .of_ok (fun s => h.struct s o) fun _ => ⟨_, rfl⟩

theorem newMap (h : Store.AddsObjects R) (m : MapObject) : Within R (StoreM.map m) :=
  .of_ok (fun s => h.map s m) fun _ => ⟨_, rfl⟩

end Within

end StoreM

open StoreM (Within)

variable {R : Store → Store → Prop}

/-! ## Zero values and conversions -/

namespace Value

theorem zeroPlain_within (h : Store.AddsObjects R) (name : Option String) (kind : Kind) :
    Within R (zeroNamed name (.plain kind)) := by
  cases kind with
  | array => exact .array h _ _
  | map => exact .newMap h _
  | struct => exact .struct h _
  | waitGroup => exact .of_ok h.waitGroup fun _ => ⟨_, rfl⟩
  | mutex => exact .of_ok h.mutex fun _ => ⟨_, rfl⟩
  | _ => exact .pure h _

mutual
theorem zeroNamed_within (h : Store.AddsObjects R) : (name : Option String) → (t : Ty) →
    Within R (zeroNamed name t)
  | name, .named n t => zeroNamed_within h (name.or (some n)) t
  | _, .array _ => .array h _ _
  | _, .map _ _ => .newMap h _
  | _, .struct fields => .bind h (zeroFields_within h fields) fun _ => .struct h _
  | _, .pointer _ => .pure h _
  | _, .channel _ => .pure h _
  | name, .plain kind => zeroPlain_within h name kind
theorem zeroFields_within (h : Store.AddsObjects R) : (fields : List (String × Ty)) →
    Within R (zeroFields fields)
  | [] => .pure h _
  | (_, t) :: rest => .bind h (zeroNamed_within h none t) fun _ =>
    .bind h (zeroFields_within h rest) fun _ => .pure h _
end

theorem conversionFault_within (h : Store.AddsObjects R) (v : Value) (t : Ty) :
    Within R (conversionFault v t) := .bind h (.get h) fun _ => .throw h rfl

theorem toText_within (h : Store.AddsObjects R) (v : Value) : Within R (toText v) := by
  refine .bind h (.get h) fun s => ?_
  split
  · dsimp only
    split <;> exact .pure h _
  · exact .pure h _

theorem toBool_within (h : Store.AddsObjects R) (v : Value) : Within R (toBool v) := by
  unfold toBool
  split
  · split
    · exact .pure h _
    · exact .pure h _
    · exact conversionFault_within h _ _
  · split
    · exact .pure h _
    · exact conversionFault_within h _ _

theorem toFloating_within (h : Store.AddsObjects R) (kind : Kind) (v : Value) :
    Within R (toFloating kind v) := by
  unfold toFloating
  dsimp only
  split
  · exact .pure h _
  · exact conversionFault_within h _ _

theorem toInteger_within (h : Store.AddsObjects R) (kind : Kind) (v : Value) :
    Within R (toInteger kind v) := by
  unfold toInteger
  dsimp only
  split
  · exact .pure h _
  · exact conversionFault_within h _ _

theorem coerceScalar_within (h : Store.AddsObjects R) (kind : Kind) (v : Value) :
    Within R (coerceScalar kind v) :=
  .ite (.pure h _) <| .ite (.pure h _) <| .ite (toText_within h v) <| .ite (toBool_within h v) <|
    .ite (toFloating_within h kind v) (toInteger_within h kind v)

theorem keyOf_within (h : Store.AddsObjects R) (v : Value) : Within R (keyOf v) := by
  unfold keyOf
  split
  · exact .pure h _
  · exact .bind h (.get h) fun _ => .throw h rfl

theorem coerceEntries_within (h : Store.AddsObjects R) {toKey toItem : Value → StoreM Value}
    (key : ∀ v, Within R (toKey v)) (item : ∀ v, Within R (toItem v))
    (entries : List (Value × Value)) (done : List (MapKey × Value)) :
    Within R (coerceEntries toKey toItem entries done) := by
  induction entries generalizing done with
  | nil => exact .pure h _
  | cons e rest ih =>
    exact .bind h (key e.1) fun _ => .bind h (keyOf_within h _) fun _ =>
      .bind h (item e.2) fun _ => ih _

theorem coerceToMap_within (h : Store.AddsObjects R) {toKey toItem : Value → StoreM Value}
    (key : ∀ v, Within R (toKey v)) (item : ∀ v, Within R (toItem v)) (whole k t : Ty)
    (v : Value) : Within R (coerceToMap whole k t toKey toItem v) := by
  refine .bind h (.get h) fun s => ?_
  split
  · exact zeroNamed_within h _ _
  · dsimp only
    split
    · exact .pure h _
    · exact .bind h (coerceEntries_within h key item _ _) fun _ => .newMap h _
  · exact .bind h (coerceEntries_within h key item _ _) fun _ => .newMap h _
  · exact conversionFault_within h _ _

theorem coerceToStruct_within (h : Store.AddsObjects R) (whole : Ty) (v : Value) :
    Within R (coerceToStruct whole v) := by
  unfold coerceToStruct
  split
  · exact zeroNamed_within h _ _
  · exact .pure h _
  · exact .bind h (.get h) fun _ => .struct h _
  · exact conversionFault_within h _ _

theorem coerceToKind_within (h : Store.AddsObjects R) (whole : Ty) (kind : Kind) (v : Value) :
    Within R (coerceToKind whole kind v) := by
  unfold coerceToKind
  split
  · exact zeroNamed_within h _ _
  · exact .pure h _
  · split
    · exact .pure h _
    · exact conversionFault_within h _ _

theorem unchanged_within (h : Store.AddsObjects R) (v : Value) : Within R (unchanged v) := by
  unfold unchanged
  split
  · exact .throw h rfl
  · exact .pure h _

theorem coerceAs_within (h : Store.AddsObjects R) : (t whole : Ty) → (v : Value) →
    Within R (coerceAs whole t v)
  | .named _ t, whole, v => .ite (.throw h rfl) (coerceAs_within h t whole v)
  | .pointer _, _, _ => .ite (.throw h rfl) (.pure h _)
  | .array element, whole, v => by
    refine .ite (.throw h rfl) ?_
    have items := coerceAs_within h element element
    dsimp only
    split
    · exact zeroNamed_within h _ _
    · refine .bind h (.get h) fun s => .ite (.pure h _) ?_
      exact .bind h (.mapM h items _) fun _ => .array h _ _
    · exact .ite (.array h _ _) (conversionFault_within h _ _)
    · exact conversionFault_within h _ _
  | .map key value, whole, v => .ite (.throw h rfl)
    (coerceToMap_within h (coerceAs_within h key key) (coerceAs_within h value value) _ _ _ v)
  | .struct _, whole, v => .ite (.throw h rfl) (coerceToStruct_within h whole v)
  | .channel _, whole, v => .ite (.throw h rfl) (coerceToKind_within h whole .channel v)
  | .plain kind, whole, v => .ite (.throw h rfl) <| .ite (.pure h _) <|
    .ite (coerceScalar_within h kind v) <|
    .ite (coerceToMap_within h (unchanged_within h) (unchanged_within h) _ _ _ v) <|
    .ite (coerceToStruct_within h whole v) (coerceToKind_within h whole kind v)

/-- A conversion adds objects at most. -/
theorem coerce_within (h : Store.AddsObjects R) (v : Value) (t : Ty) : Within R (coerce v t) :=
  coerceAs_within h t t v

theorem copyEntries_within {α : Type} (h : Store.AddsObjects R) {copy : Value → StoreM Value}
    (hc : ∀ v, Within R (copy v)) : (entries : List (α × Value)) →
    Within R (copyEntries copy entries)
  | [] => .pure h _
  | (_, v) :: rest => .bind h (hc v) fun _ =>
    .bind h (copyEntries_within h hc rest) fun _ => .pure h _

theorem copyTo_within (h : Store.AddsObjects R) (depth : Nat) (v : Value) :
    Within R (copyTo depth v) := by
  induction depth generalizing v with
  | zero => exact .pure h v
  | succ depth ih =>
    cases v with
    | array r => exact .bind h (.get h) fun _ => .bind h (.mapM h ih _) fun _ => .array h _ _
    | struct r =>
      exact .bind h (.get h) fun _ => .bind h (copyEntries_within h ih _) fun _ => .struct h _
    | map r =>
      exact .bind h (.get h) fun _ => .bind h (copyEntries_within h ih _) fun _ => .newMap h _
    | _ => exact .pure h _

theorem copy_within (h : Store.AddsObjects R) (v : Value) : Within R (copy v) :=
  .bind h (.get h) fun _ => copyTo_within h _ v

theorem promote_within (h : Store.AddsObjects R) (a b : Value) : Within R (promote a b) := by
  unfold promote
  split
  · exact .pure h _
  · exact .bind h (coerce_within h _ _) fun _ => .bind h (coerce_within h _ _) fun _ => .pure h _

end Value

/-! ## Operators -/

namespace Operator

theorem refuse_within {α : Type} (h : Store.AddsObjects R) (a b : Value) :
    Within R (refuse a b : StoreM α) := .bind h (.get h) fun _ => .throw h rfl

theorem unify_within (h : Store.AddsObjects R) (level : Strictness) (a b : Value) :
    Within R (unify level a b) := by
  refine .ite (.pure h _) ?_
  cases level with
  | strict => exact .bind h (.get h) fun _ => .throw h rfl
  | relaxed => exact Value.promote_within h a b
  | dynamic =>
    exact .tryCatch h (Value.promote_within h a b) fun _ => .bind h (.get h) fun _ => .pure h _

/-- An operation that raises no control signal. -/
structure Plain (f : Arithmetic) : Prop where
  whole : ∀ {x y kind}, f.whole x y = .error kind → kind.isControl = false
  fraction : ∀ {x y kind}, f.fraction x y = .error kind → kind.isControl = false

theorem addition_plain : Plain addition := ⟨nofun, nofun⟩

theorem subtraction_plain : Plain subtraction := ⟨nofun, nofun⟩

theorem multiplication_plain : Plain multiplication := ⟨nofun, nofun⟩

theorem division_plain : Plain division := by
  constructor <;>
  · intro x y kind failed
    simp only [division] at failed
    split at failed <;> cases failed
    rfl

theorem remainder_plain : Plain remainder := by
  constructor <;>
  · intro x y kind failed
    simp only [remainder] at failed
    split at failed <;> cases failed
    rfl

theorem power_plain : Plain power := by
  refine ⟨fun {x y kind} failed => ?_, nofun⟩
  simp only [power] at failed
  split at failed <;> cases failed

theorem settle_within {α : Type} (h : Store.AddsObjects R) {r : Except FaultKind α}
    (plain : ∀ {kind}, r = .error kind → kind.isControl = false) (wrap : α → Value) :
    Within R (settle r wrap) := by
  cases r with
  | ok x => exact .pure h _
  | error kind => exact .throw h (plain rfl)

theorem apply_within (h : Store.AddsObjects R) {f : Arithmetic} (plain : Plain f)
    (a b : Value) : Within R (f.apply a b) := by
  unfold Arithmetic.apply
  split <;> first
    | exact settle_within h plain.whole _
    | exact settle_within h plain.fraction _
    | exact refuse_within h _ _

theorem add_within (h : Store.AddsObjects R) (a b : Value) : Within R (add a b) := by
  unfold add
  split
  · exact .bind h (.get h) fun _ => .array h _ _
  · exact .bind h (.get h) fun _ => .bind h (Value.coerce_within h _ _) fun _ => .array h _ _
  · exact .bind h (.get h) fun _ => .struct h _
  · exact .pure h _
  · exact apply_within h addition_plain _ _

theorem subtract_within (h : Store.AddsObjects R) (a b : Value) : Within R (subtract a b) := by
  unfold subtract
  split
  · exact .pure h _
  · exact .bind h (.get h) fun _ => .array h _ _
  · exact apply_within h subtraction_plain _ _

theorem negate_within (h : Store.AddsObjects R) (v : Value) : Within R (negate v) := by
  unfold negate
  split <;> first | exact .pure h _ | exact .bind h (.get h) fun _ => .throw h rfl

theorem bitwise_within (h : Store.AddsObjects R) (whole : Int64 → Int64 → Int64)
    (bools : Bool → Bool → Bool) (a b : Value) : Within R (bitwise whole bools a b) := by
  have plain : Plain ⟨fun x y => .ok (whole x y), fun _ _ => .error .invalidType⟩ := by
    refine ⟨fun failed => ?_, fun failed => ?_⟩ <;> cases failed
    rfl
  unfold bitwise
  split
  · exact .pure h _
  · exact .ite (apply_within h plain _ _) (refuse_within h _ _)

theorem shift_within (h : Store.AddsObjects R) (a b : Value) : Within R (shift a b) :=
  .ite (.bind h (.get h) fun _ => Value.coerce_within h _ _) (refuse_within h _ _)

theorem ordered_within (h : Store.AddsObjects R) (test : Ordering → Bool) (a b : Value) :
    Within R (ordered test a b) := by
  unfold ordered
  split
  · exact .pure h _
  · exact refuse_within h _ _

end Operator

/-! ## Maps, structs and their parts -/

namespace MapRef

theorem key_within (h : Store.AddsObjects R) (r : MapRef) (k : Value) : Within R (r.key k) :=
  .bind h (.get h) fun _ => .bind h (Value.coerce_within h _ _) fun v => Value.keyOf_within h v

theorem find_within (h : Store.AddsObjects R) (r : MapRef) (k : Value) : Within R (r.find k) := by
  refine .bind h (r.key_within h k) fun key => .bind h (.get h) fun s => ?_
  dsimp only
  split
  · exact .pure h _
  · exact Value.zeroNamed_within h _ _

end MapRef

namespace StructRef

theorem conformField_within (h : Store.AddsObjects R) (o : StructObject) (name : String)
    (v : Value) : Within R (conformField o name v) := by
  unfold conformField
  split
  · exact .pure h _
  · split
    · exact Value.coerce_within h _ _
    · exact .ite (.pure h _) (.throw h rfl)

/-- What a struct is after a store is found out before anything is changed. -/
theorem stored_within (h : Store.AddsObjects R) (o : StructObject) (name : String) (v : Value) :
    Within R (stored o name v) := by
  unfold stored
  split
  · exact .pure h _
  · exact .pure h _
  · refine .ite (.throw h rfl) ?_
    unfold setGuarded
    split
    · exact .bind h (.get h) fun _ => .pure h _
    · split
      · exact .pure h _
      · exact .pure h _
      · exact .throw h rfl
    · exact .bind h (conformField_within h o name v) fun _ => .pure h _

end StructRef

namespace Aggregate

theorem place_within (h : Store.AddsObjects R) (v : Value) (size : Nat) :
    Within R (place v size) := by
  refine fun s => ⟨h.refl s, fun f failed => ?_⟩
  simp only [place, indexIn] at failed
  split at failed
  · cases failed
    rfl
  · split at failed <;> cases failed
    rfl

theorem item_within (h : Store.AddsObjects R) (container index : Value) :
    Within R (item container index) := by
  unfold item
  split
  · exact .bind h (.get h) fun _ => .bind h (place_within h _ _) fun _ => .pure h _
  · exact .bind h (place_within h _ _) fun _ => .pure h _
  · exact MapRef.find_within h _ _
  · refine .bind h (.get h) fun s => ?_
    dsimp only
    split
    · exact .pure h _
    · exact .throw h rfl
  · exact .bind h (.get h) fun _ => .throw h rfl

end Aggregate

end StackScript
