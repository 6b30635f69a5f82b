import StackScript.Proofs.Copies.Conversions

/-!
# Conversions project onto their types

A value has a type if its kind is that of the type, or if it is nil and so is the zero value of the
type, and if the same is true of the items of an array and of the keys and values of a map. Every value
has the empty interface, and what is converted to a pointer is left as it is. Arrays and maps tell the
types of their parts themselves: where they are right about them, a conversion gives a value that has
the type converted to, and converting it once more gives it again.

Main statement: `Value.coerce_projects`.
-/
namespace StackScript

variable {s u : Store} {t k e : Ty} {v w : Value} {p : Place} {o : Aggregated}

/-! ## Types and their zero values -/

namespace Kind

/-- Kinds whose zero value is nil. -/
def zeroIsNil : Kind → Bool
  | .nil | .pointer | .channel | .error | .function | .type | .interface | .template | .marker => true
  | _ => false

/-- The kinds of types that take every value as it is. -/
def TakesAll (kind : Kind) : Prop := kind = .interface ∨ kind = .pointer

end Kind

namespace Value

theorem zeroNamed_nil_iff : (t : Ty) → (name : Option String) →
    (zeroNamed name t = pure .nil ↔ t.kind.zeroIsNil = true)
  | .named n t, name => zeroNamed_nil_iff t (name.or (some n))
  | .array _, _ => ⟨fun h => (by cases congrFun h {}), nofun⟩
  | .map _ _, _ => ⟨fun h => (by cases congrFun h {}), nofun⟩
  | .struct _, _ => by
    refine ⟨fun h => ?_, nofun⟩
    obtain ⟨_, _, -, made⟩ := StoreM.bind_ok (congrFun h {})
    cases made
  | .pointer _, _ => ⟨fun _ => rfl, fun _ => rfl⟩
  | .channel _, _ => ⟨fun _ => rfl, fun _ => rfl⟩
  | .plain kind, _ => by
    cases kind <;> first
      | exact ⟨fun _ => rfl, fun _ => rfl⟩
      | exact ⟨fun h => (by cases congrFun h {}), nofun⟩

/-! ## Values that have a type -/

/-- The kind of the value is that of the type, or the value is nil and so is the zero value. -/
def HasKindOf (t : Ty) (v : Value) : Prop := v.kind = t.kind ∨ v = .nil ∧ zero t = pure .nil

theorem hasKindOf_iff :
    v.HasKindOf t ↔ v.kind = t.kind ∨ v = .nil ∧ t.kind.zeroIsNil = true := by
  rw [HasKindOf, zero, zeroNamed_nil_iff]

theorem HasKindOf.retyped {t t' : Ty} (h : v.HasKindOf t) (same : t.kind = t'.kind) : v.HasKindOf t' := by
  rw [hasKindOf_iff, ← same]
  exact hasKindOf_iff.1 h

/-- The value has the type, and so have the items of an array and the keys and values of a map. -/
def Conforms (s : Store) : Ty → Value → Prop
  | .named _ t, v => Conforms s t v
  | .array e, v => v.HasKindOf (.array e) ∧
    ∀ r, v = .array r → ∀ w ∈ (s.array r).items.toList, Conforms s e w
  | .map k e, v => v.HasKindOf (.map k e) ∧
    ∀ r, v = .map r → ∀ entry ∈ (s.map r).entries,
      Conforms s k (entry.1.toValue k) ∧ Conforms s e entry.2
  | t, v => t.kind.TakesAll ∨ v.HasKindOf t

namespace Conforms

theorem of_takesAll : {t : Ty} → t.kind.TakesAll → v.Conforms s t
  | .named _ t, h => of_takesAll (t := t) h
  | .array _, h | .map _ _, h => by cases h <;> contradiction
  | .struct _, h | .channel _, h | .pointer _, h | .plain _, h => .inl h

theorem of_nil : {t : Ty} → t.kind.zeroIsNil = true → Value.nil.Conforms s t
  | .named _ t, h => of_nil (t := t) h
  | .pointer _, h | .channel _, h | .plain _, h => .inr (hasKindOf_iff.2 (.inr ⟨rfl, h⟩))

theorem of_kind (array : v.kind ≠ .array) (map : v.kind ≠ .map) :
    {t : Ty} → v.kind = t.kind → v.Conforms s t
  | .named _ t, h => of_kind array map (t := t) h
  | .array _, h => absurd h array
  | .map _ _, h => absurd h map
  | .pointer _, h | .channel _, h | .struct _, h | .plain _, h => .inr (.inl h)

/-- What has a type has its kind, but for nil and where everything is taken. -/
theorem kind : {t : Ty} → v.Conforms s t →
    t.kind.TakesAll ∨ v.kind = t.kind ∨ v = .nil ∧ t.kind.zeroIsNil = true
  | .named _ t, h => kind (t := t) h
  | .array _, h | .map _ _, h => .inr (hasKindOf_iff.1 h.1)
  | .pointer _, h | .channel _, h | .struct _, h | .plain _, h => h.imp_right hasKindOf_iff.1

/-- Nothing but a value of its kind has a type whose zero value is no nil. -/
theorem kind_eq (h : v.Conforms s t) (zero : t.kind.zeroIsNil = false) : v.kind = t.kind := by
  obtain takesAll | same | ⟨-, nil⟩ := h.kind
  · obtain h | h := takesAll <;> rw [h] at zero <;> cases zero
  · exact same
  · cases zero.symm.trans nil

end Conforms

end Value

/-! ## Arrays and maps that are right about their parts -/

namespace Store

/-- The arrays and maps that a value reaches are there, and have the types that they declare. -/
def Conforming (s : Store) (v : Value) : Prop :=
  ∀ p, s.Reaches v p → s.Has p ∧ p.value.Conforms s (p.value.typeOf s)

theorem GrowsTo.array {r : ArrayRef} (more : s.GrowsTo u) (there : s.Has (.array r)) :
    u.array r = s.array r := Aggregated.array.inj (more.same (.array r) there trivial)

theorem GrowsTo.map {r : MapRef} (more : s.GrowsTo u) (there : s.Has (.map r)) :
    u.map r = s.map r := Aggregated.map.inj (more.same (.map r) there trivial)

theorem GrowsTo.struct {r : StructRef} (more : s.GrowsTo u) (there : s.Has (.struct r)) :
    u.struct r = s.struct r := Aggregated.struct.inj (more.same (.struct r) there trivial)

theorem GrowsTo.typeOf (more : s.GrowsTo u) (there : s.Has p) :
    p.value.typeOf u = p.value.typeOf s := by
  cases p with
  | array r => simp only [Place.value, Value.typeOf, more.array there]
  | struct r => simp only [Place.value, Value.typeOf, more.struct there]
  | map r => simp only [Place.value, Value.typeOf, more.map there]

namespace Conforming

theorem of_placeless (h : v.place? = none) : s.Conforming v :=
  fun _ reached => absurd reached (Reaches.not_of_placeless h)

theorem part (h : s.Conforming v) (refers : v.place? = some p) (part : w ∈ s.parts p) :
    s.Conforming w := fun q deeper => h q (.inside refers part deeper)

theorem inner (h : s.Conforming v) (reached : s.Reaches v p) : s.Conforming p.value :=
  fun q deeper => h q (reached.trans deeper)

theorem there (h : s.Conforming v) (refers : v.place? = some p) : s.Has p := (h p (.here refers)).1

theorem own (h : s.Conforming v) (refers : v.place? = some p) : v.Conforms s (v.typeOf s) := by
  obtain rfl := Value.eq_value refers
  exact (h p (.here refers)).2

theorem of_parts (refers : v.place? = some p) (there : s.Has p) (own : v.Conforms s (v.typeOf s))
    (parts : ∀ w ∈ s.parts p, s.Conforming w) : s.Conforming v := by
  intro q reached
  obtain rfl | ⟨w, part, deeper⟩ := reached.here_or_inside refers
  · exact ⟨there, Value.eq_value refers ▸ own⟩
  · exact parts w part q deeper

end Conforming

end Store

namespace MapKey

theorem place?_toValue (key : MapKey) (k : Ty) : (key.toValue k).place? = none := by
  cases key with
  | int n =>
    simp only [toValue]
    split <;> rfl
  | _ => rfl

theorem kind_toValue_int (n : Int64) (integer : k.kind.isInteger = true) :
    ((int n).toValue k).kind = k.kind := by
  unfold toValue
  generalize k.kind = kind at integer ⊢
  cases kind <;> first
    | rfl
    | cases integer

/-- A key stands for the value itself, or is the number of a whole number. -/
theorem ofValue?_eq_some {key : MapKey} (found : ofValue? v = some key) :
    (∀ k, key.toValue k = v) ∨ v.kind.isInteger = true ∧ ∃ n, key = int n := by
  cases v <;> first
    | (cases found; exact .inl fun _ => rfl)
    | exact .inr ⟨rfl, _, (Option.some.inj found).symm⟩
    | cases found

end MapKey

namespace Value

/-- A value that conforms goes on having a type when objects are added. -/
theorem Conforms.later (more : s.GrowsTo u) : {t : Ty} → {v : Value} → s.Conforming v →
    v.Conforms s t → v.Conforms u t
  | .named _ t, _, sound, h => later more (t := t) sound h
  | .array e, _, sound, h => by
    refine ⟨h.1, ?_⟩
    rintro r rfl w mem
    rw [more.array (sound.there rfl)] at mem
    exact later more (t := e) (sound.part (p := .array r) rfl mem) (h.2 r rfl w mem)
  | .map k e, _, sound, h => by
    refine ⟨h.1, ?_⟩
    rintro r rfl entry mem
    rw [more.map (sound.there rfl)] at mem
    obtain ⟨key, value⟩ := h.2 r rfl entry mem
    exact ⟨later more (t := k) (.of_placeless (entry.1.place?_toValue k)) key, later more (t := e)
      (sound.part (p := .map r) rfl (List.mem_map_of_mem (f := Prod.snd) mem)) value⟩
  | .pointer _, _, _, h | .channel _, _, _, h | .struct _, _, _, h | .plain _, _, _, h => h

end Value

theorem Store.Conforming.later (h : s.Conforming v) (more : s.GrowsTo u) : u.Conforming v := by
  intro p reached
  rw [more.reaches_iff fun p reached => ⟨(h p reached).1, trivial⟩] at reached
  obtain ⟨there, conforms⟩ := h p reached
  rw [more.typeOf there]
  exact ⟨more.has p there, conforms.later more (h.inner reached)⟩

/-! ## What conversions give -/

namespace Value

/-- A value with a type that is right about its parts, and so are they. -/
structure Typed (s : Store) (t : Ty) (v : Value) : Prop where
  sound : s.Conforming v
  conforms : v.Conforms s t

/-- Arrays and maps declare the types of parts that the type has; an array of bytes does not know
another name of its element type. -/
def Declares (s : Store) (t : Ty) : Value → Prop
  | .array r => t.kind = .array → t.elementType.isInterface = true ∨ (s.array r).element = t.elementType ∨
    t.elementType.kind = .byte ∧ (s.array r).element = .plain .byte
  | .map r => t.kind = .map → (s.map r).keyType = t.keyType ∧ (s.map r).valueType = t.elementType
  | _ => True

/-- What a conversion to a type gives. -/
structure Projected (s : Store) (t : Ty) (v : Value) : Prop extends Typed s t v where
  noMarker : v.isMarker = false
  declares : v.Declares s t

theorem Typed.later (h : v.Typed s t) (more : s.GrowsTo u) : v.Typed u t :=
  ⟨h.sound.later more, h.conforms.later more h.sound⟩

namespace Projected

theorem named_iff {n : String} : v.Projected s (.named n t) ↔ v.Projected s t where
  mp h := ⟨⟨h.sound, h.conforms⟩, h.noMarker, by cases v <;> exact h.declares⟩
  mpr h := ⟨⟨h.sound, h.conforms⟩, h.noMarker, by cases v <;> exact h.declares⟩

theorem of_nil (zero : t.kind.zeroIsNil = true) : Value.nil.Projected s t :=
  ⟨⟨.of_placeless rfl, .of_nil zero⟩, rfl, trivial⟩

theorem of_kind (sound : s.Conforming v) (noMarker : v.isMarker = false) (array : v.kind ≠ .array)
    (map : v.kind ≠ .map) (same : v.kind = t.kind) : v.Projected s t := by
  refine ⟨⟨sound, .of_kind array map same⟩, noMarker, ?_⟩
  cases v <;> first
    | exact trivial
    | exact absurd rfl array
    | exact absurd rfl map

theorem of_struct {r : StructRef} (sound : s.Conforming (.struct r)) (same : t.kind = .struct) :
    (Value.struct r).Projected s t :=
  of_kind sound rfl (fun h => by cases h) (fun h => by cases h) same.symm

theorem of_placeless (placeless : v.place? = none) (noMarker : v.isMarker = false)
    (same : v.kind = t.kind) : v.Projected s t := by
  refine of_kind (.of_placeless placeless) noMarker ?_ ?_ same <;>
    intro kind <;> cases v <;> contradiction

theorem of_takesAll (takesAll : t.kind.TakesAll) (sound : s.Conforming v)
    (noMarker : v.isMarker = false) : v.Projected s t := by
  refine ⟨⟨sound, .of_takesAll takesAll⟩, noMarker, ?_⟩
  cases v <;> first
    | exact trivial
    | (intro kind; rw [kind] at takesAll; cases takesAll <;> contradiction)

/-- An array of bytes is an array of each type of bytes. -/
theorem bytes (byte : e.kind = .byte) (h : v.Projected s (.array (.plain .byte))) :
    v.Projected s (.array e) := by
  refine ⟨⟨h.sound, h.conforms.1.retyped rfl, fun r same w mem => ?_⟩, h.noMarker, ?_⟩
  · have kind : w.kind = .byte := (h.conforms.2 r same w mem).kind_eq rfl
    refine .of_kind ?_ ?_ (kind.trans byte.symm) <;> rw [kind] <;> intro other <;> cases other
  · cases v with
    | array r =>
      intro _
      obtain all | same | ⟨-, same⟩ := h.declares rfl
      · cases all
      · exact .inr (.inr ⟨byte, same⟩)
      · exact .inr (.inr ⟨byte, same⟩)
    | map r => exact nofun
    | _ => exact trivial

/-- The types of all arrays and of all maps are those of arrays and maps of anything. -/
theorem plain_array (h : v.Projected s (.array .interface)) : v.Projected s (.plain .array) :=
  ⟨⟨h.sound, .inr (h.conforms.1.retyped rfl)⟩, h.noMarker, by cases v <;> exact h.declares⟩

theorem plain_map (h : v.Projected s (.map .interface .interface)) : v.Projected s (.plain .map) :=
  ⟨⟨h.sound, .inr (h.conforms.1.retyped rfl)⟩, h.noMarker, by cases v <;> exact h.declares⟩

end Projected

end Value

open Value (Typed Projected)
open StoreM (Gives)

/-! ### New objects -/

theorem StoreM.Gives.added {m : StoreM Value} {P : Store → Value → Prop}
    (run : m s = (.ok (s.add o).1.value, (s.add o).2))
    (h : ∀ p u, s.GrowsTo u → u.Has p → u.object p = o → P u p.value) : Gives s m P := by
  intro w u made
  cases run.symm.trans made
  have more := Store.keeps_add (fun _ => True) s o
  exact ⟨more, h _ _ more Store.has_add Store.object_add⟩

namespace Value

theorem array_projects {items : Array Value} (typed : ∀ w ∈ items.toList, w.Typed s e) :
    Gives s (StoreM.array e items) fun u w => w.Projected u (.array e) := by
  refine .added (o := .array _) rfl fun p u more there here => ?_
  cases p with
  | array r =>
    replace here := Aggregated.array.inj here
    have typed (w : Value) (mem : w ∈ (u.array r).items.toList) : w.Typed u e :=
      (typed w (by rwa [here] at mem)).later more
    have conforms : (Value.array r).Conforms u (.array e) := by
      refine ⟨.inl rfl, ?_⟩
      rintro _ ⟨⟩ w mem
      exact (typed w mem).conforms
    have own : (Value.array r).Conforms u ((Value.array r).typeOf u) := by rwa [typeOf, here]
    refine ⟨⟨.of_parts (p := .array r) rfl there own fun w mem => (typed w mem).sound, conforms⟩, rfl,
      fun _ => .inr (.inl ?_)⟩
    rw [here]
    rfl
  | _ => cases here

theorem map_projects {entries : List (MapKey × Value)}
    (typed : ∀ entry ∈ entries, (entry.1.toValue k).Typed s k ∧ entry.2.Typed s e) :
    Gives s (StoreM.map { keyType := k, valueType := e, entries := entries }) fun u w =>
      w.Projected u (.map k e) := by
  refine .added (o := .map _) rfl fun p u more there here => ?_
  cases p with
  | map r =>
    replace here := Aggregated.map.inj here
    have typed (entry : MapKey × Value) (mem : entry ∈ (u.map r).entries) :
        (entry.1.toValue k).Typed u k ∧ entry.2.Typed u e := by
      rw [here] at mem
      exact (typed entry mem).imp (·.later more) (·.later more)
    have conforms : (Value.map r).Conforms u (.map k e) := by
      refine ⟨.inl rfl, ?_⟩
      rintro _ ⟨⟩ entry mem
      exact (typed entry mem).imp Typed.conforms Typed.conforms
    have own : (Value.map r).Conforms u ((Value.map r).typeOf u) := by rwa [typeOf, here]
    refine ⟨⟨.of_parts (p := .map r) rfl there own ?_, conforms⟩, rfl, fun _ => ?_⟩
    · exact List.forall_mem_map.2 fun entry mem => (typed entry mem).2.sound
    · rw [here]
      exact ⟨rfl, rfl⟩
  | _ => cases here

theorem struct_projects {o : StructObject} (parts : ∀ field ∈ o.fields, s.Conforming field.2)
    (struct : t.kind = .struct) : Gives s (StoreM.struct o) fun u w => w.Projected u t := by
  refine .added (o := .struct o) rfl fun p u more there here => ?_
  cases p with
  | struct r =>
    replace here := Aggregated.struct.inj here
    have own : (Value.struct r).Conforms u ((Value.struct r).typeOf u) :=
      .of_kind (fun h => by cases h) (fun h => by cases h) (kind_typeOf u (.struct r)).symm
    refine .of_struct (.of_parts (p := .struct r) rfl there own ?_) struct
    refine List.forall_mem_map.2 fun field mem => ?_
    rw [here] at mem
    exact (parts field mem).later more
  | _ => cases here

/-! ### Zero values -/

theorem zeroPlain_projects (name : Option String) (kind : Kind) :
    Gives s (zeroNamed name (.plain kind)) fun u w => w.Projected u (.plain kind) := by
  cases kind with
  | array => exact (array_projects (by simp)).imp fun _ _ _ => .plain_array
  | map => exact (map_projects (List.forall_mem_nil _)).imp fun _ _ _ => .plain_map
  | struct => exact struct_projects (List.forall_mem_nil _) rfl
  | _ =>
    intro w u run
    obtain ⟨more, -⟩ := Gives.of_within (zeroPlain_within (Store.addsObjects_keeps _) name _) w u run
    refine ⟨more, ?_⟩
    cases run
    first
      | exact .of_nil rfl
      | exact .of_placeless rfl rfl rfl

mutual
/-- A zero value has the type that it is the zero value of. -/
theorem zeroNamed_projects : (name : Option String) → (t : Ty) → (s : Store) →
    Gives s (zeroNamed name t) fun u w => w.Projected u t
  | name, .named n t, s => (zeroNamed_projects (name.or (some n)) t s).imp fun _ _ _ => Projected.named_iff.2
  | _, .array _, _ => array_projects (by simp)
  | _, .map _ _, _ => map_projects (List.forall_mem_nil _)
  | _, .struct fields, s => (zeroFields_conforming fields s).bind fun _ _ _ made =>
    struct_projects (Association.forall_ofList (P := Store.Conforming _) made) rfl
  | _, .pointer _, _ => .pure (.of_nil rfl)
  | _, .channel _, _ => .pure (.of_nil rfl)
  | name, .plain kind, _ => zeroPlain_projects name kind
theorem zeroFields_conforming : (fields : List (String × Ty)) → (s : Store) →
    Gives s (zeroFields fields) fun u values => ∀ field ∈ values, u.Conforming field.2
  | [], _ => .pure (List.forall_mem_nil _)
  | (_, t) :: rest, s => (zeroNamed_projects none t s).bind fun _ u _ made =>
    (zeroFields_conforming rest u).bind fun _ _ more' made' =>
      .pure (List.forall_mem_cons.2 ⟨made.sound.later more', made'⟩)
end

/-! ### Keys -/

/-- Where a value of a type is a key, the key stands for a value of that type. -/
theorem keyOf_conforms (h : v.Conforms s k) :
    Gives s (keyOf v) fun u key => (key.toValue k).Conforms u k := by
  unfold keyOf
  split
  · next key found =>
    refine .pure ?_
    obtain stands | ⟨integer, n, rfl⟩ := MapKey.ofValue?_eq_some found
    · rwa [stands]
    obtain takesAll | same | ⟨rfl, -⟩ := h.kind
    · exact .of_takesAll takesAll
    · rw [same] at integer
      have kind := MapKey.kind_toValue_int n integer
      refine .of_kind ?_ ?_ kind <;> rw [kind] <;> intro other <;> rw [other] at integer <;> cases integer
    · cases integer
  · exact .get_bind .throw

/-! ### Conversions

In what follows `whole` is the type as it was named, whose zero value is that of the type itself.
-/

section

variable {whole : Ty} {toKey toItem : Value → StoreM Value}
  (key : ∀ {s v}, s.Conforming v → Gives s (toKey v) (Projected · k))
  (item : ∀ {s v}, s.Conforming v → Gives s (toItem v) (Projected · e))
include key item

theorem coerceEntries_projects {entries : List (Value × Value)}
    (parts : ∀ entry ∈ entries, s.Conforming entry.1 ∧ s.Conforming entry.2) :
    Gives s (coerceEntries toKey toItem entries []) fun u entries =>
      ∀ entry ∈ entries, (entry.1.toValue k).Typed u k ∧ entry.2.Typed u e := by
  refine coerceEntries_gives (P := fun u key => (key.toValue k).Typed u k) (Q := fun u v => v.Typed u e)
    Typed.later Typed.later (fun entry mem u more => ?_) (fun entry mem u more => ?_) (List.forall_mem_nil _)
  · refine (key ((parts entry mem).1.later more)).bind fun v u _ projected =>
      (keyOf_conforms projected.conforms).imp fun _ key _ conforms => ⟨?_, conforms⟩
    exact .of_placeless (key.place?_toValue k)
  · exact (item ((parts entry mem).2.later more)).imp fun _ _ _ projected => projected.toTyped

theorem coerceToMap_projects {name : Option String} (zeroes : zero whole = zeroNamed name (.map k e))
    (noMarker : v.isMarker = false) (h : s.Conforming v) :
    Gives s (coerceToMap whole k e toKey toItem v) fun u w => w.Projected u (.map k e) := by
  refine .get_bind ?_
  split
  · rw [zeroes]
    exact zeroNamed_projects _ _ _
  · next r =>
    refine .cond (fun same => .pure ?_) fun _ => ?_
    · -- the map declares the very types
      obtain ⟨rfl, rfl⟩ : (s.map r).keyType = k ∧ (s.map r).valueType = e := by simpa using same
      exact ⟨⟨h, h.own (p := .map r) rfl⟩, rfl, fun _ => ⟨rfl, rfl⟩⟩
    · refine (coerceEntries_projects key item ?_).bind fun _ _ _ typed => map_projects typed
      refine List.forall_mem_map.2 fun entry mem => ?_
      exact ⟨.of_placeless (entry.1.place?_toValue _),
        h.part (p := .map r) rfl (List.mem_map_of_mem (f := Prod.snd) mem)⟩
  · next r =>
    refine (coerceEntries_projects key item fun entry mem => ?_).bind fun _ _ _ typed => map_projects typed
    obtain ⟨name, -, found⟩ := List.mem_filterMap.1 mem
    obtain ⟨v, here, rfl⟩ := Option.map_eq_some_iff.1 found
    have fields : ∀ field ∈ (s.struct r).fields, s.Conforming field.2 :=
      fun field mem => h.part (p := .struct r) rfl (List.mem_map_of_mem mem)
    exact ⟨.of_placeless rfl, Association.forall_find? (P := s.Conforming) fields v here⟩
  · exact conversionFault_gives _ _

end

theorem coerceToStruct_projects {whole : Ty} {name : Option String} (zeroes : zero whole = zeroNamed name t)
    (struct : t.kind = .struct) (h : s.Conforming v) :
    Gives s (coerceToStruct whole v) fun u w => w.Projected u t := by
  unfold coerceToStruct
  split
  · rw [zeroes]
    exact zeroNamed_projects _ _ _
  · exact .pure (.of_struct h struct)
  · next r =>
    refine .get_bind (struct_projects (fun field mem => ?_) struct)
    obtain ⟨⟨key, v⟩, inside, made⟩ := List.mem_filterMap.1 mem
    cases key <;> cases made
    exact h.part (p := .map r) rfl (List.mem_map_of_mem (f := Prod.snd) inside)
  · exact conversionFault_gives _ _

theorem coerceToKind_projects {whole : Ty} {name : Option String} (zeroes : zero whole = zeroNamed name t)
    (same : v.kind = t.kind → v.Projected s t) :
    Gives s (coerceToKind whole t.kind v) fun u w => w.Projected u t := by
  unfold coerceToKind
  split
  · rw [zeroes]
    exact zeroNamed_projects _ _ _
  · next error => exact .pure (.of_placeless rfl rfl error.symm)
  · exact .cond (fun kind => .pure (same (eq_of_beq kind))) fun _ => conversionFault_gives _ _

theorem unchanged_projects (h : s.Conforming v) : Gives s (unchanged v) (Projected · .interface) :=
  .cond (fun _ => .throw) fun noMarker =>
    .pure (.of_takesAll (.inl rfl) h (eq_false_of_ne_true noMarker))

theorem coercePlain_projects {whole : Ty} {name : Option String} {kind : Kind}
    (zeroes : zero whole = zeroNamed name (.plain kind)) (h : s.Conforming v) :
    Gives s (coerceAs whole (.plain kind) v) fun u w => w.Projected u (.plain kind) := by
  refine .cond (fun _ => .throw) fun noMarker => ?_
  replace noMarker := eq_false_of_ne_true noMarker
  refine .cond (fun all => .pure ?_) fun _ =>
    .cond (fun scalar => ?_) fun noScalar => .cond (fun map => ?_) fun noMap =>
    .cond (fun struct => coerceToStruct_projects zeroes (eq_of_beq struct) h) fun _ => ?_
  · exact .of_takesAll (t := .plain kind) (by rwa [Bool.or_eq_true, beq_iff_eq, beq_iff_eq] at all) h noMarker
  · refine (coerceScalar_kind scalar v).imp fun _ w _ same => ?_
    have scalar : w.kind.isScalar = true := same ▸ scalar
    exact .of_placeless (place?_of_scalar scalar) (isMarker_of_isScalar scalar) same
  · obtain rfl := eq_of_beq map
    have zeroes : zero whole = zeroNamed name (.map .interface .interface) := zeroes
    exact (coerceToMap_projects unchanged_projects unchanged_projects zeroes noMarker h).imp
      fun _ _ _ => .plain_map
  · refine coerceToKind_projects (t := .plain kind) zeroes fun same => ⟨⟨h, .inr (.inl same)⟩, noMarker, ?_⟩
    cases v <;> first
      | exact trivial
      | exact fun _ => .inl rfl
      | exact absurd (beq_iff_eq.2 same.symm) noMap

/-- A conversion gives a value of the type converted to. -/
theorem coerceAs_projects : (t whole : Ty) → (name : Option String) → zero whole = zeroNamed name t →
    ∀ {s v}, s.Conforming v → Gives s (coerceAs whole t v) fun u w => w.Projected u t
  | .named n t, whole, name, zeroes, _, _, h => .cond (fun _ => .throw) fun _ =>
    (coerceAs_projects t whole (name.or (some n)) zeroes h).imp fun _ _ _ => Projected.named_iff.2
  | .pointer _, _, _, _, _, _, h => .cond (fun _ => .throw) fun noMarker =>
    .pure (.of_takesAll (.inr rfl) h (eq_false_of_ne_true noMarker))
  | .array e, whole, name, zeroes, s, v, h => by
    refine .cond (fun _ => .throw) fun _ => ?_
    dsimp only
    split
    · rw [zeroes]
      exact zeroNamed_projects _ _ _
    · next r _ =>
      refine .get_bind (.cond (fun same => .pure ?_) fun _ => ?_)
      · obtain all | rfl : e.isInterface = true ∨ (s.array r).element = e := by simpa using same
        · exact ⟨⟨h, .inl rfl, fun _ _ _ _ => .of_takesAll (.inl (eq_of_beq all))⟩, rfl, fun _ => .inl all⟩
        · exact ⟨⟨h, h.own (p := .array r) rfl⟩, rfl, fun _ => .inr (.inl rfl)⟩
      · refine .bind (.mapM (P := fun u w => w.Typed u e) Typed.later fun w mem u more => ?_)
          fun _ _ _ typed => array_projects typed
        have part : s.Conforming w := h.part (p := .array r) rfl (Array.mem_toList_iff.2 mem)
        exact (coerceAs_projects e e none rfl (part.later more)).imp fun _ _ _ made => made.toTyped
    · refine .cond (fun byte => ?_) fun _ => conversionFault_gives _ _
      refine (array_projects fun w mem => ?_).imp fun _ _ _ made => made.bytes (eq_of_beq byte)
      obtain ⟨b, -, rfl⟩ := List.mem_map.1 mem
      exact ⟨.of_placeless rfl, .inr (.inl rfl)⟩
    · exact conversionFault_gives _ _
  | .map key value, _, _, zeroes, _, _, h => .cond (fun _ => .throw) fun noMarker =>
    coerceToMap_projects (coerceAs_projects key key none rfl) (coerceAs_projects value value none rfl)
      zeroes (eq_false_of_ne_true noMarker) h
  | .struct _, _, _, zeroes, _, _, h => .cond (fun _ => .throw) fun _ =>
    coerceToStruct_projects zeroes rfl h
  | .channel e, _, _, zeroes, _, v, h => .cond (fun _ => .throw) fun noMarker =>
    coerceToKind_projects (t := .channel e) zeroes fun same => .of_kind h (eq_false_of_ne_true noMarker)
      (fun array => by rw [same] at array; cases array) (fun map => by rw [same] at map; cases map) same
  | .plain _, _, _, zeroes, _, _, h => coercePlain_projects zeroes h

/-! ## Converting once more -/

end Value

theorem StoreM.mapM_of_pure {f : Value → StoreM Value} {items : Array Value}
    (each : ∀ v ∈ items.toList, f v = pure v) : items.mapM f = pure items := by
  have list {values : List Value} (each : ∀ v ∈ values, f v = pure v) : values.mapM f = pure values := by
    induction values with
    | nil => rfl
    | cons v rest ih =>
      obtain ⟨here, others⟩ := List.forall_mem_cons.1 each
      simp [List.mapM_cons, here, ih others]
  simp [Array.mapM_eq_mapM_toList, list each]

namespace Value

/-- The same value, or a new array of the same items that names their type otherwise. -/
inductive Again (s : Store) : Value → Value → Prop
  | same (v : Value) : Again s v v
  | renamed {r r' : ArrayRef} (items : (s.array r').items = (s.array r).items)
    (element : (s.array r').element.underlying = (s.array r).element.underlying) :
    Again s (.array r) (.array r')

/-- The computation gives the value again. -/
def GivesAgain (s : Store) (m : StoreM Value) (v : Value) : Prop :=
  ∃ w u, m s = (.ok w, u) ∧ s.GrowsTo u ∧ Again u v w

theorem GivesAgain.same {m : StoreM Value} (run : m s = (.ok v, s)) : GivesAgain s m v :=
  ⟨v, s, run, .refl s, .same v⟩

theorem coerceAs_byte {whole : Ty} (b : UInt8) : {t : Ty} → t.kind = .byte →
    coerceAs whole t (.byte b) = pure (.byte b)
  | .named _ t, kind => coerceAs_byte b (t := t) kind
  | .plain _, rfl => rfl

theorem underlying_byte : {t : Ty} → t.kind = .byte → t.underlying = .plain .byte
  | .named _ t, kind => underlying_byte (t := t) kind
  | .plain _, rfl => rfl

theorem coerceToMap_same (whole : Ty) {toKey toItem : Value → StoreM Value} {r : MapRef}
    (key : (s.map r).keyType = k) (value : (s.map r).valueType = e) :
    coerceToMap whole k e toKey toItem (.map r) s = (.ok (.map r), s) :=
  congrFun (if_pos (by simp [key, value])) s

theorem coerceToKind_same {whole : Ty} {kind : Kind} (nil : v = .nil → zero whole = pure .nil)
    (same : v ≠ .nil → v.kind = kind) : coerceToKind whole kind v = pure v := by
  cases v with
  | nil => cases kind <;> exact nil rfl
  | _ => cases same nofun; rfl

theorem coerceScalar_same {kind : Kind} (same : v.kind = kind) : coerceScalar kind v = pure v :=
  if_pos (beq_iff_eq.2 same)

namespace Projected

variable {whole : Ty} {name : Option String}

theorem zero_nil (zeroes : zero whole = zeroNamed name t) (h : v.Projected s t) (nil : v = .nil) :
    zero whole = pure .nil := by
  rw [zeroes, zeroNamed_nil_iff]
  subst nil
  obtain (all | all) | same | ⟨-, zero⟩ := h.conforms.kind
  · rw [all]; rfl
  · rw [all]; rfl
  · rw [← same]; rfl
  · exact zero

/-- Only nil and what is taken by a type that takes everything may have another kind. -/
theorem kind (h : v.Projected s t) (some : ¬t.kind.TakesAll) (nil : v ≠ .nil) : v.kind = t.kind := by
  obtain all | same | ⟨isNil, -⟩ := h.conforms.kind
  · exact absurd all some
  · exact same
  · exact absurd isNil nil

theorem array_again {r : ArrayRef} (h : (Value.array r).Projected s (.array e)) :
    GivesAgain s (coerceAs whole (.array e) (.array r)) (.array r) := by
  have run : coerceAs whole (.array e) (.array r) s =
      (if e.isInterface || (s.array r).element == e then pure (.array r)
        else (s.array r).items.mapM (coerceAs e e) >>= StoreM.array e) s := rfl
  by_cases same : (e.isInterface || (s.array r).element == e) = true
  · exact .same (run.trans (congrFun (if_pos same) s))
  -- bytes that came from a text, whose type has another name
  obtain ⟨byte, element⟩ : e.kind = .byte ∧ (s.array r).element = .plain .byte := by
    rw [Bool.or_eq_true, beq_iff_eq, not_or] at same
    exact ((h.declares rfl).resolve_left same.1).resolve_left same.2
  have own : (Value.array r).Conforms s (.array (.plain .byte)) := element ▸ h.sound.own (p := .array r) rfl
  have items : ∀ w ∈ (s.array r).items.toList, coerceAs e e w = pure w := by
    intro w mem
    have kind : w.kind = .byte := (own.2 r rfl w mem).kind_eq rfl
    cases w with
    | byte b => exact coerceAs_byte b byte
    | _ => cases kind
  rw [if_neg same, StoreM.mapM_of_pure items] at run
  have more : s.GrowsTo (s.add (.array { element := e, items := (s.array r).items })).2 := Store.keeps_add _ s _
  have here := Store.object_add (s := s) (o := .array { element := e, items := (s.array r).items })
  replace here := Aggregated.array.inj here
  have there := more.array (h.sound.there (p := .array r) rfl)
  refine ⟨_, _, run, more, .renamed ?_ ?_⟩
  · exact (congrArg ArrayObject.items here).trans (congrArg ArrayObject.items there).symm
  · refine (congrArg (·.element.underlying) here).trans ((underlying_byte byte).trans ?_)
    exact (congrArg Ty.underlying ((congrArg ArrayObject.element there).trans element)).symm

theorem plain_again {kind : Kind} (zeroes : zero whole = zeroNamed name (.plain kind))
    (h : v.Projected s (.plain kind)) : coerceAs whole (.plain kind) v s = (.ok v, s) := by
  simp only [coerceAs, h.noMarker, Bool.false_eq_true, if_false]
  split
  · rfl
  next some =>
  have same : v ≠ .nil → v.kind = kind := h.kind (by simpa [Ty.kind, Kind.TakesAll] using some)
  split
  · next scalar =>
    have same : v.kind = kind := h.conforms.kind_eq (by cases kind <;> first | rfl | cases scalar)
    rw [coerceScalar_same same]
    rfl
  split
  · next map =>
    obtain rfl := eq_of_beq map
    have same : v.kind = .map := h.conforms.kind_eq rfl
    cases v with
    | map r =>
      obtain ⟨key, value⟩ := h.declares rfl
      exact coerceToMap_same _ key value
    | _ => cases same
  split
  · next struct =>
    obtain rfl := eq_of_beq struct
    have same : v.kind = .struct := h.conforms.kind_eq rfl
    cases v with
    | struct r => rfl
    | _ => cases same
  · rw [coerceToKind_same (h.zero_nil zeroes) same]
    rfl

/-- What a conversion gives is given again by another one. -/
theorem again : {t whole : Ty} → {name : Option String} → zero whole = zeroNamed name t →
    v.Projected s t → GivesAgain s (coerceAs whole t v) v
  | .named n t, whole, name, zeroes, h => by
    simp only [coerceAs, h.noMarker, Bool.false_eq_true, if_false]
    exact (named_iff.1 h).again zeroes
  | .array e, _, _, _, h => by
    have kind := h.conforms.kind_eq rfl
    cases v with
    | array r => exact h.array_again
    | _ => cases kind
  | .map k e, whole, _, _, h => by
    have kind := h.conforms.kind_eq rfl
    cases v with
    | map r =>
      obtain ⟨key, value⟩ := h.declares rfl
      exact .same (coerceToMap_same whole key value)
    | _ => cases kind
  | .struct _, _, _, _, h => by
    have kind := h.conforms.kind_eq rfl
    cases v with
    | struct r => exact .same rfl
    | _ => cases kind
  | .pointer _, _, _, _, h => by
    refine .same ?_
    simp only [coerceAs, h.noMarker, Bool.false_eq_true, if_false]
    rfl
  | .channel e, _, _, zeroes, h => by
    have kind : v ≠ .nil → v.kind = .channel := h.kind (by rintro (all | all) <;> cases all)
    refine .same ?_
    simp only [coerceAs, h.noMarker, Bool.false_eq_true, if_false]
    rw [coerceToKind_same (h.zero_nil zeroes) kind]
    rfl
  | .plain _, _, _, zeroes, h => .same (h.plain_again zeroes)

end Projected

/-- A conversion gives a value of the type converted to, and gives that value again when it is
converted once more. -/
theorem coerce_projects (sound : s.Conforming v) (run : v.coerce t s = (.ok w, u)) :
    s.GrowsTo u ∧ u.Conforming w ∧ w.Conforms u t ∧
      ∃ w' u', w.coerce t u = (.ok w', u') ∧ u.GrowsTo u' ∧ Again u' w w' := by
  obtain ⟨more, made⟩ := coerceAs_projects t t none rfl sound w u run
  exact ⟨more, made.sound, made.conforms, made.again rfl⟩

end Value

/-- A store with an array of whole numbers. -/
def numbersStored : Store where
  arrays := #[{ element := .plain .int, items := #[.int 300, .int 7] }]

/-- Numbers are cut down to bytes, and bytes are left as they are. -/
theorem Value.numbers_projected :
    let small := Ty.named "small" (.plain .byte)
    let u := (numbersStored.newArray { element := small, items := #[.byte 44, .byte 7] }).2
    numbersStored.Conforming (.array ⟨0⟩) ∧
      (Value.array ⟨0⟩).coerce (.array small) numbersStored = (.ok (.array ⟨1⟩), u) ∧
      (Value.array ⟨1⟩).Conforms u (.array small) ∧
      ∃ w u', (Value.array ⟨1⟩).coerce (.array small) u = (.ok w, u') ∧ Again u' (.array ⟨1⟩) w := by
  intro small u
  have numbers : ∀ w ∈ [int 300, int 7], w.kind = .int := by simp [kind]
  have conforming : numbersStored.Conforming (.array ⟨0⟩) := by
    refine .of_parts (p := .array ⟨0⟩) rfl Nat.zero_lt_one ⟨.inl rfl, ?_⟩ fun w mem => ?_
    · rintro r same w mem
      cases same
      exact .inr (.inl (numbers w mem))
    · exact .of_placeless (place?_of_scalar (by rw [numbers w mem]; rfl))
  have run : (Value.array ⟨0⟩).coerce (.array small) numbersStored = (.ok (.array ⟨1⟩), u) := by
    change ((numbersStored.array ⟨0⟩).items.mapM (coerceAs small small) >>= StoreM.array small) _ = _
    rw [Array.mapM_eq_mapM_toList]
    rfl
  obtain ⟨-, -, conforms, w, u', again, -, same⟩ := coerce_projects conforming run
  exact ⟨conforming, run, conforms, w, u', again, same⟩

end StackScript
