import StackScript.Proofs.Addresses.Blind
import StackScript.Machine.Operator
import StackScript.Machine.Aggregate

/-!
# Values and objects see no addresses

Copies, conversions, maps, structs, names, operators and the parts of aggregates are blind: what
they do does not depend on the addresses that frames return to, nor on any instruction.

Main statements: `coerce_blind`, `copy_blind` and one lemma for each operation on objects.
-/
namespace StackScript

open Association (mapValues)

variable [Relocation]

/-! ## Zero values and copies -/

namespace Value

theorem zeroPlain_blind (name : Option String) (kind : Kind) :
    Blind moved (zeroNamed name (.plain kind)) (zeroNamed name (.plain kind)) := by
  cases kind with
  | array => exact StoreM.emptyArray_blind .interface
  | map => exact StoreM.map_blind {}
  | struct => exact StoreM.struct_blind { typeName := name }
  | waitGroup => exact StoreM.waitGroup_blind
  | mutex => exact StoreM.mutex_blind
  | _ => exact .pure_eq rfl

mutual
theorem zeroNamed_blind : (name : Option String) → (t : Ty) →
    Blind moved (zeroNamed name t) (zeroNamed name t)
  | name, .named n t => zeroNamed_blind (name.or (some n)) t
  | _, .array e => StoreM.emptyArray_blind e
  | _, .map k v => StoreM.map_blind { keyType := k, valueType := v }
  | name, .struct fields => by
    refine .bind (zeroFields_blind fields) fun values => ?_
    rw [Association.ofList_mapValues]
    exact StoreM.struct_blind { typeName := name, fields := _, fieldTypes := some _ }
  | _, .pointer _ => .pure_eq rfl
  | _, .channel _ => .pure_eq rfl
  | name, .plain kind => zeroPlain_blind name kind
theorem zeroFields_blind : (fields : List (String × Ty)) →
    Blind (mapValues moved) (zeroFields fields) (zeroFields fields)
  | [] => .pure_eq rfl
  | (_, t) :: rest => .bind (zeroNamed_blind none t) fun _ =>
    .bind (zeroFields_blind rest) fun _ => .pure_eq rfl
end

theorem zero_blind (t : Ty) : Blind moved (zero t) (zero t) := zeroNamed_blind none t

theorem copyEntries_blind {α : Type} {copy : Value → StoreM Value}
    (hc : ∀ v, Blind moved (copy v) (copy v.moved)) : (entries : List (α × Value)) →
    Blind (mapValues moved) (copyEntries copy entries)
      (copyEntries copy (mapValues moved entries))
  | [] => .pure_eq rfl
  | (_, v) :: rest => .bind (hc v) fun _ => .bind (copyEntries_blind hc rest) fun _ => .pure_eq rfl

theorem copyTo_blind (depth : Nat) (v : Value) :
    Blind moved (copyTo depth v) (copyTo depth v.moved) := by
  induction depth generalizing v with
  | zero => exact .pure moved v
  | succ depth ih =>
    cases v with
    | array r =>
      refine .bind StoreM.get_blind fun s => ?_
      rw [Store.array_moved]
      exact .bind (.arrayMapM ih _) fun items => StoreM.array_blind _ items
    | struct r =>
      refine .bind StoreM.get_blind fun s => ?_
      rw [Store.struct_moved]
      exact .bind (copyEntries_blind ih _) fun fields =>
        StoreM.struct_blind { s.struct r with fields := fields }
    | map r =>
      refine .bind StoreM.get_blind fun s => ?_
      rw [Store.map_moved]
      exact .bind (copyEntries_blind ih _) fun entries =>
        StoreM.map_blind { keyType := _, valueType := _, entries := entries }
    | _ => exact .pure_eq rfl

theorem copy_blind (v : Value) : Blind moved v.copy v.moved.copy := by
  refine .bind StoreM.get_blind fun s => ?_
  rw [Store.objectCount_moved]
  exact copyTo_blind _ v

/-! ## Conversions -/

theorem conversionFault_blind (v : Value) (t : Ty) :
    Blind moved (conversionFault v t) (conversionFault v.moved t) := by
  refine .bind StoreM.get_blind fun s => ?_
  rw [typeName_moved]
  exact .throw _ _

theorem toText_blind (v : Value) : Blind moved (toText v) (toText v.moved) := by
  refine .bind StoreM.get_blind fun s => ?_
  have text := display_moved s v
  cases v with
  | array r =>
    simp only [moved_array, Store.array_moved, ArrayObject.moved_element,
      ArrayObject.moved_items, Array.toList_map, List.filterMap_map, Function.comp_def,
      asInt?_moved] at text ⊢
    rw [text]
    exact .ite (.pure_eq rfl) (.pure_eq rfl)
  | _ => exact .pure_eq (congrArg string text)

theorem toBool_blind (v : Value) : Blind moved (toBool v) (toBool v.moved) := by
  rcases frame_or v with ⟨f, rfl⟩ | same
  · exact conversionFault_blind (frame f) _
  have fault := conversionFault_blind v (.plain .bool)
  rw [same] at fault ⊢
  unfold toBool
  split
  · split
    · exact .pure_eq rfl
    · exact .pure_eq rfl
    · exact fault
  · exact .ite (.pure_eq rfl) fault

theorem toFloating_blind (kind : Kind) (v : Value) :
    Blind moved (toFloating kind v) (toFloating kind v.moved) := by
  rcases frame_or v with ⟨f, rfl⟩ | same
  · exact conversionFault_blind (frame f) _
  have fault := conversionFault_blind v (.plain kind)
  rw [same] at fault ⊢
  unfold toFloating
  dsimp only
  split
  · exact .pure_eq (by split <;> rfl)
  · exact fault

theorem moved_ofInteger (kind : Kind) (n : Int64) : (ofInteger kind n).moved = ofInteger kind n := by
  unfold ofInteger
  split <;> rfl

theorem toInteger_blind (kind : Kind) (v : Value) :
    Blind moved (toInteger kind v) (toInteger kind v.moved) := by
  rcases frame_or v with ⟨f, rfl⟩ | same
  · exact conversionFault_blind (frame f) _
  have fault := conversionFault_blind v (.plain kind)
  rw [same] at fault ⊢
  unfold toInteger
  dsimp only
  split
  · exact .pure_eq (moved_ofInteger kind _).symm
  · exact fault

theorem coerceScalar_blind (kind : Kind) (v : Value) :
    Blind moved (coerceScalar kind v) (coerceScalar kind v.moved) := by
  unfold coerceScalar
  rw [kind_moved, isNil_moved]
  have zero : (zeroScalar kind).moved = zeroScalar kind := by cases kind <;> rfl
  exact .ite (.pure _ _) <| .ite (.pure_eq zero.symm) <| .ite (toText_blind v) <|
    .ite (toBool_blind v) <| .ite (toFloating_blind kind v) (toInteger_blind kind v)

theorem keyOf_blind (v : Value) : Blind id (keyOf v) (keyOf v.moved) := by
  unfold keyOf
  rw [MapKey.ofValue?_moved]
  split
  · exact .pure id _
  · refine .bind StoreM.get_blind fun s => ?_
    rw [typeName_moved]
    exact .throw _ _

theorem coerceEntries_blind {toKey toItem : Value → StoreM Value}
    (key : ∀ v, Blind moved (toKey v) (toKey v.moved))
    (item : ∀ v, Blind moved (toItem v) (toItem v.moved)) (entries : List (Value × Value))
    (done : List (MapKey × Value)) :
    Blind (mapValues moved) (coerceEntries toKey toItem entries done)
      (coerceEntries toKey toItem (entries.map (Prod.map moved moved))
        (mapValues moved done)) := by
  induction entries generalizing done with
  | nil => exact .pure _ _
  | cons e rest ih =>
    refine .bind (key e.1) fun k => .bind (keyOf_blind k) fun k => .bind (item e.2) fun v => ?_
    rw [Association.insert_mapValues]
    exact ih _

theorem coerceToMap_blind {toKey toItem : Value → StoreM Value}
    (key : ∀ v, Blind moved (toKey v) (toKey v.moved))
    (item : ∀ v, Blind moved (toItem v) (toItem v.moved)) (whole k t : Ty) (v : Value) :
    Blind moved (coerceToMap whole k t toKey toItem v)
      (coerceToMap whole k t toKey toItem v.moved) := by
  have converted (entries : List (Value × Value)) :
      Blind moved
        (do StoreM.map { keyType := k, valueType := t, entries := ← coerceEntries toKey toItem entries [] })
        (do
          let entries ← coerceEntries toKey toItem (entries.map (Prod.map moved moved)) []
          StoreM.map { keyType := k, valueType := t, entries := entries }) :=
    .bind (coerceEntries_blind key item entries []) fun done =>
      StoreM.map_blind { keyType := k, valueType := t, entries := done }
  refine .bind StoreM.get_blind fun s => ?_
  cases v with
  | nil => exact zero_blind whole
  | map r =>
    simp only [moved_map, Store.map_moved, MapObject.moved_keyType, MapObject.moved_valueType,
      MapObject.moved_entries, mapValues, List.map_map]
    refine .ite (.pure _ _) ?_
    have := converted ((s.map r).entries.map fun e => (e.1.toValue (s.map r).keyType, e.2))
    simpa only [List.map_map, Function.comp_def, Prod.map_apply, MapKey.moved_toValue] using this
  | struct r =>
    simp only [moved_struct, Store.struct_moved, StructObject.keys_moved,
      StructObject.moved_fields, Association.find?_mapValues, Option.map_map]
    have := converted ((s.struct r).keys.filterMap fun k =>
      (Association.find? k (s.struct r).fields).map (string k, ·))
    simpa only [List.map_filterMap, Option.map_map, Function.comp_def, Prod.map_apply,
      moved_string] using this
  | _ => exact conversionFault_blind _ _

/-- The entries under texts, which become fields, lose their addresses as the map does. -/
theorem textFields_moved (entries : List (MapKey × Value)) :
    ((mapValues moved entries).filterMap fun x => match x.1 with
      | .string name => some (name, x.2)
      | _ => none) =
    mapValues moved (entries.filterMap fun x => match x.1 with
      | .string name => some (name, x.2)
      | _ => none) := by
  induction entries with
  | nil => rfl
  | cons e rest ih =>
    obtain ⟨k, v⟩ := e
    cases k <;> simp [ih]

theorem coerceToStruct_blind (whole : Ty) (v : Value) :
    Blind moved (coerceToStruct whole v) (coerceToStruct whole v.moved) := by
  cases v with
  | nil => exact zero_blind whole
  | struct r => exact .pure_eq rfl
  | map r =>
    refine .bind StoreM.get_blind fun s => ?_
    rw [Store.map_moved]
    dsimp only [MapObject.moved_entries]
    erw [textFields_moved]
    exact StoreM.struct_blind { fields := _ }
  | _ => exact conversionFault_blind _ _

theorem coerceToKind_blind (whole : Ty) (kind : Kind) (v : Value) :
    Blind moved (coerceToKind whole kind v) (coerceToKind whole kind v.moved) := by
  have fault := conversionFault_blind v whole
  have plain := (.ite (.pure _ v) fault :
    Blind moved (if v.kind == kind then pure v else conversionFault v whole) _)
  rcases frame_or v with ⟨f, rfl⟩ | same
  · cases kind <;> exact plain
  rw [same] at plain ⊢
  unfold coerceToKind
  split
  · exact zero_blind whole
  · exact .pure_eq rfl
  · exact plain

theorem unchanged_blind (v : Value) : Blind moved (unchanged v) (unchanged v.moved) := by
  unfold unchanged
  rw [isMarker_moved]
  exact .ite (.throw _ _) (.pure _ _)

theorem coerceAs_blind : (t whole : Ty) → (v : Value) →
    Blind moved (coerceAs whole t v) (coerceAs whole t v.moved)
  | .named _ t, whole, v => by
    unfold coerceAs
    rw [isMarker_moved]
    exact .ite (.throw _ _) (coerceAs_blind t whole v)
  | .pointer _, _, v => by
    unfold coerceAs
    rw [isMarker_moved]
    exact .ite (.throw _ _) (.pure _ v)
  | .array element, whole, v => by
    have items := coerceAs_blind element element
    have fault := conversionFault_blind v whole
    unfold coerceAs
    rw [isMarker_moved]
    refine .ite (.throw _ _) ?_
    cases v with
    | nil => exact zero_blind whole
    | array r =>
      refine .bind StoreM.get_blind fun s => ?_
      rw [Store.array_moved]
      exact .ite (.pure _ _) (.bind (.arrayMapM items _) fun items => StoreM.array_blind _ items)
    | string text =>
      refine .ite ?_ fault
      have bytes := StoreM.array_blind (.plain .byte) ((Text.bytes text).map byte).toArray
      rwa [List.map_toArray, List.map_map] at bytes
    | _ => exact fault
  | .map key value, whole, v => by
    unfold coerceAs
    rw [isMarker_moved]
    exact .ite (.throw _ _)
      (coerceToMap_blind (coerceAs_blind key key) (coerceAs_blind value value) _ _ _ v)
  | .struct _, whole, v => by
    unfold coerceAs
    rw [isMarker_moved]
    exact .ite (.throw _ _) (coerceToStruct_blind whole v)
  | .channel _, whole, v => by
    unfold coerceAs
    rw [isMarker_moved]
    exact .ite (.throw _ _) (coerceToKind_blind whole .channel v)
  | .plain kind, whole, v => by
    unfold coerceAs
    rw [isMarker_moved]
    exact .ite (.throw _ _) <| .ite (.pure _ v) <| .ite (coerceScalar_blind kind v) <|
      .ite (coerceToMap_blind unchanged_blind unchanged_blind _ _ _ v) <|
      .ite (coerceToStruct_blind whole v) (coerceToKind_blind whole kind v)

/-- A conversion sees no addresses. -/
theorem coerce_blind (v : Value) (t : Ty) : Blind moved (v.coerce t) (v.moved.coerce t) :=
  coerceAs_blind t t v

theorem promote_blind (a b : Value) :
    Blind (Prod.map moved moved) (promote a b) (promote a.moved b.moved) := by
  unfold promote
  rw [kind_moved, kind_moved]
  exact .ite (.pure _ (a, b)) <| .bind (coerce_blind a _) fun a => .bind (coerce_blind b _) fun b =>
    .pure _ (a, b)

end Value

/-! ## Maps -/

namespace MapRef

theorem key_blind (r : MapRef) (k : Value) : Blind id (r.key k) (r.key k.moved) := by
  refine .bind StoreM.get_blind fun s => ?_
  rw [Store.map_moved]
  exact .bind (Value.coerce_blind k _) Value.keyOf_blind

theorem find_blind (r : MapRef) (k : Value) : Blind Value.moved (r.find k) (r.find k.moved) := by
  refine .bind (r.key_blind k) fun key => .bind StoreM.get_blind fun s => ?_
  simp only [id_eq, Store.map_moved, MapObject.moved_entries, Association.find?_mapValues]
  cases Association.find? key (s.map r).entries with
  | none => exact Value.zero_blind _
  | some v => exact .pure _ v

theorem contains_blind (r : MapRef) (k : Value) : Blind id (r.contains k) (r.contains k.moved) := by
  refine StoreM.tryCatch_blind (.bind (r.key_blind k) fun key => .bind StoreM.get_blind fun s => ?_)
    fun e => .pure id false
  simp only [Store.map_moved, MapObject.moved_entries, Association.has_mapValues]
  exact .pure id _

theorem refuse_blind (k : Value) : Blind id (refuse k) (refuse k.moved) := by
  refine .bind StoreM.get_blind fun s => ?_
  rw [Value.display_moved]
  exact .throw _ _

theorem set_blind (r : MapRef) (k v : Value) : Blind id (r.set k v) (r.set k.moved v.moved) := by
  refine .bind StoreM.get_blind fun s => ?_
  rw [Store.map_moved]
  refine .ite (refuse_blind k) <| .bind (r.key_blind k) fun key =>
    .bind (Value.coerce_blind v _) fun v => StoreM.modify_blind (fun s => ?_) fun _ => rfl
  exact s.modifyMap_moved (fun m => by simp [MapObject.moved]) r

theorem delete_blind (r : MapRef) (k : Value) : Blind id (r.delete k) (r.delete k.moved) := by
  refine .bind StoreM.get_blind fun s => ?_
  simp only [Store.map_moved, MapObject.moved_entries, Association.has_mapValues]
  refine .ite (.bind (refuse_blind k) fun _ => .pure id _) <| .bind (r.key_blind k) fun key =>
    .bind (StoreM.modify_blind (fun s => ?_) fun _ => rfl) fun _ => .pure id _
  exact s.modifyMap_moved (fun m => by simp [MapObject.moved]) r

end MapRef

/-! ## Structs -/

namespace StructRef

theorem conformField_blind (o : StructObject) (name : String) (v : Value) :
    Blind Value.moved (conformField o name v) (conformField o.moved name v.moved) := by
  unfold conformField
  rw [StructObject.moved_fieldTypes]
  split
  · exact .pure _ v
  · split
    · exact Value.coerce_blind v _
    · exact .ite (.pure _ v) (.throw _ _)

theorem setGuarded_blind (o : StructObject) (name : String) (v : Value) :
    Blind StructObject.moved (setGuarded o name v) (setGuarded o.moved name v.moved) := by
  unfold setGuarded
  split
  · refine .bind StoreM.get_blind fun s => ?_
    rw [Value.display_moved]
    exact .pure_eq rfl
  · cases v with
    | struct p => exact .pure_eq rfl
    | nil => exact .pure_eq rfl
    | _ => exact .throw _ _
  · exact .bind (conformField_blind o name v) fun v => .pure_eq (by simp [StructObject.moved])

theorem stored_blind (o : StructObject) (name : String) (v : Value) :
    Blind StructObject.moved (stored o name v) (stored o.moved name v.moved) := by
  unfold stored
  rw [Value.isTruthy_moved]
  split
  · exact .pure_eq rfl
  · exact .pure_eq rfl
  · exact .ite (.throw _ _) (setGuarded_blind o name v)

theorem set_blind (r : StructRef) (name : String) (v : Value) :
    Blind id (r.set name v) (r.set name v.moved) := by
  refine .bind StoreM.get_blind fun s => ?_
  rw [Store.struct_moved]
  refine .bind (stored_blind _ name v) fun o => StoreM.modify_blind (fun s => ?_) fun _ => rfl
  exact s.modifyStruct_moved (f := fun _ => o) (fun _ => rfl) r

theorem delete_blind (r : StructRef) (name : String) : Blind id (r.delete name) (r.delete name) := by
  refine .bind StoreM.get_blind fun s => ?_
  rw [Store.struct_moved]
  refine .ite (.throw _ _) (StoreM.modify_blind (fun s => ?_) fun _ => rfl)
  exact s.modifyStruct_moved (fun o => by simp [StructObject.moved]) r

end StructRef

/-! ## Names -/

namespace TableRef

theorem set_blind (r : TableRef) (name : String) (v : Value) :
    Blind id (r.set name v) (r.set name v.moved) := by
  refine .bind StoreM.get_blind fun s => ?_
  rw [find?_moved]
  cases r.find? s name false with
  | none => exact .throw _ _
  | some t =>
    refine .bind StoreM.get_blind fun s => ?_
    rw [Store.table_moved, Table.binding?_moved]
    cases (s.table t).binding? name with
    | none => exact .throw _ _
    | some b =>
      have stores (v : Value) : Blind id
          (modify fun s => s.modifyTable t fun t => t.bind name { b with value := v, bound := true } :
            StoreM Unit)
          (modify fun s => s.modifyTable t fun t =>
            t.bind name { b.moved with value := v.moved, bound := true }) :=
        StoreM.modify_blind (fun s => s.modifyTable_moved
          (fun t => Table.bind_moved t name { b with value := v, bound := true }) t) fun _ => rfl
      exact .ite (.throw _ _) (.ite (.bind v.copy_blind stores) (.bind (.pure _ v) stores))

theorem create_blind (r : TableRef) (name : String) : Blind id (r.create name) (r.create name) := by
  refine .bind StoreM.get_blind fun s => ?_
  rw [Store.table_moved, Table.binds_moved]
  refine .ite (.throw _ _) (StoreM.modify_blind (fun s => ?_) fun _ => rfl)
  exact s.modifyTable_moved (fun t => Table.bind_moved t name { value := .nil, constant := _, bound := _ }) r

theorem setConstant_blind (r : TableRef) (name : String) (v : Value) :
    Blind id (r.setConstant name v) (r.setConstant name v.moved) := by
  refine .bind StoreM.get_blind fun s => ?_
  simp only [Store.table_moved, Table.binding?_moved, Option.any_map]
  refine .ite (.throw _ _) (StoreM.modify_blind (fun s => ?_) fun _ => rfl)
  exact s.modifyTable_moved (fun t => Table.bind_moved t name { value := v, readonly := _, constant := _ }) r

theorem delete_blind (r : TableRef) (name : String) (force : Bool) :
    Blind id (r.delete name force) (r.delete name force) := by
  refine .bind StoreM.get_blind fun s => ?_
  rw [Store.table_moved, Table.binding?_moved]
  cases (s.table r).binding? name with
  | none => exact .throw _ _
  | some b =>
    refine .ite (.throw _ _) (StoreM.modify_blind (fun s => ?_) fun _ => rfl)
    exact s.modifyTable_moved (fun t => by simp [Table.moved]) r

end TableRef

end StackScript
