import StackScript.Proofs.Addresses.Values

/-!
# Operators and aggregates see no addresses

A frame is no operand of any operator, so an operator either refuses it, which needs its type only,
or passes it on as an item.

Main statements: one lemma for each operator and for each operation on the parts of aggregates.
-/
namespace StackScript

open Association (mapValues)

variable [Relocation]

/-! ## Operators -/

namespace Operator

open Value (moved)

theorem refuse_blind {α α' : Type} (f : α → α') (a b : Value) :
    Blind f (refuse a b : StoreM α) (refuse a.moved b.moved) := by
  refine .bind StoreM.get_blind fun s => ?_
  simp only [typesText, Value.typeName_moved]
  exact .throw _ _

theorem asTexts_blind (a b : Value) :
    Blind (Prod.map moved moved) (asTexts a b) (asTexts a.moved b.moved) := by
  refine .bind StoreM.get_blind fun s => ?_
  simp only [Value.display_moved]
  exact .pure_eq rfl

theorem unify_blind (level : Strictness) (a b : Value) :
    Blind (Prod.map moved moved) (unify level a b) (unify level a.moved b.moved) := by
  unfold unify
  simp only [Value.kind_moved]
  refine .ite (.pure _ (a, b)) ?_
  cases level with
  | strict => exact refuse_mismatch a b
  | relaxed => exact Value.promote_blind a b
  | dynamic => exact StoreM.tryCatch_blind (Value.promote_blind a b) fun _ => asTexts_blind a b
where
  refuse_mismatch (a b : Value) : Blind (Prod.map moved moved)
      (do throw (.about .typeMismatch (typesText (← get) a b)) : StoreM (Value × Value))
      (do throw (.about .typeMismatch (typesText (← get) a.moved b.moved))) := by
    refine .bind StoreM.get_blind fun s => ?_
    simp only [typesText, Value.typeName_moved]
    exact .throw _ _

theorem settle_blind {α : Type} (r : Except FaultKind α) {wrap : α → Value}
    (plain : ∀ x, (wrap x).moved = wrap x) : Blind moved (settle r wrap) (settle r wrap) := by
  cases r with
  | ok x => exact .pure_eq (plain x).symm
  | error kind => exact .throw _ _

omit [Relocation] in
theorem apply_frame (f : Arithmetic) (a : Value) (g : Frame) :
    f.apply a (.frame g) = refuse a (.frame g) := by cases a <;> rfl

theorem apply_blind (f : Arithmetic) (a b : Value) :
    Blind moved (f.apply a b) (f.apply a.moved b.moved) := by
  have refused := refuse_blind moved a b
  rcases Value.frame_or a with ⟨g, rfl⟩ | hasA
  · exact refused
  rcases Value.frame_or b with ⟨g, rfl⟩ | hasB
  · rw [Value.moved_frame, apply_frame, apply_frame]
    exact refused
  rw [hasA, hasB] at refused ⊢
  unfold Arithmetic.apply
  split <;> first
    | exact settle_blind _ fun _ => rfl
    | exact refused

theorem add_array_blind (x : ArrayRef) (item : Value) :
    Blind moved (do
        let array := (← get).array x
        let item ← item.coerce array.element
        StoreM.array array.element (array.items.push item) : StoreM Value)
      (do
        let array := (← get).array x
        let item ← item.moved.coerce array.element
        StoreM.array array.element (array.items.push item)) := by
  refine .bind StoreM.get_blind fun s => ?_
  simp only [Store.array_moved, ArrayObject.moved_element, ArrayObject.moved_items]
  refine .bind (Value.coerce_blind item _) fun item => ?_
  rw [← Array.map_push]
  exact StoreM.array_blind _ _

theorem add_blind (a b : Value) : Blind moved (add a b) (add a.moved b.moved) := by
  have plain := apply_blind addition a b
  rcases Value.frame_or a with ⟨g, rfl⟩ | hasA
  · exact plain
  rcases Value.frame_or b with ⟨g, rfl⟩ | hasB
  · cases a with
    | array x => exact add_array_blind x (.frame g)
    | _ => exact plain
  have grown (x : ArrayRef) := add_array_blind x b
  rw [hasB] at grown
  rw [hasA, hasB] at plain ⊢
  unfold add
  split
  · refine .bind StoreM.get_blind fun s => ?_
    simp only [Store.array_moved, ArrayObject.moved_element, ArrayObject.moved_items,
      ← Array.map_append]
    exact StoreM.array_blind _ _
  · exact grown _
  · refine .bind StoreM.get_blind fun s => ?_
    simp only [Store.struct_moved, merge_moved]
    exact StoreM.struct_blind _
  · exact .pure_eq rfl
  · exact plain
where
  merge_moved (o other : StructObject) : o.moved.merge other.moved = (o.merge other).moved := by
    have grown (fields done : List (String × Value)) :
        (mapValues moved fields).foldl (fun fs f => Association.insert f.1 f.2 fs)
            (mapValues moved done) =
          mapValues moved (fields.foldl (fun fs f => Association.insert f.1 f.2 fs) done) := by
      induction fields generalizing done with
      | nil => rfl
      | cons e rest ih => simp [ih]
    simp only [StructObject.merge, StructObject.moved, grown]

theorem subtract_blind (a b : Value) : Blind moved (subtract a b) (subtract a.moved b.moved) := by
  have plain := apply_blind subtraction a b
  cases a with
  | array x =>
    refine .bind StoreM.get_blind fun s => ?_
    simp only [Store.array_moved, ArrayObject.moved_element, ArrayObject.moved_items,
      Array.filter_map, Function.comp_def, Value.equal_moved]
    exact StoreM.array_blind _ _
  | string x =>
    cases b with
    | string y => exact .pure_eq rfl
    | _ => exact plain
  | _ => exact plain

theorem negate_blind (v : Value) : Blind moved (negate v) (negate v.moved) := by
  have refused : Blind moved
      (do throw (.about .invalidType (v.typeName (← get))) : StoreM Value)
      (do throw (.about .invalidType (v.moved.typeName (← get)))) := by
    refine .bind StoreM.get_blind fun s => ?_
    rw [Value.typeName_moved]
    exact .throw _ _
  cases v <;> first | exact .pure_eq rfl | exact refused

theorem bitwise_blind (whole : Int64 → Int64 → Int64) (bools : Bool → Bool → Bool) (a b : Value) :
    Blind moved (bitwise whole bools a b) (bitwise whole bools a.moved b.moved) := by
  have plain := Blind.ite (p := a.kind.isInteger = true)
    (apply_blind ⟨fun x y => .ok (whole x y), fun _ _ => .error .invalidType⟩ a b)
    (refuse_blind moved a b)
  cases a with
  | bool x =>
    cases b with
    | bool y => exact .pure_eq rfl
    | _ => exact plain
  | _ => exact plain

theorem shift_blind (a b : Value) : Blind moved (shift a b) (shift a.moved b.moved) := by
  unfold shift
  simp only [Value.kind_moved, Value.asInt?_moved]
  refine .ite (.bind StoreM.get_blind fun s => ?_) (refuse_blind moved a b)
  rw [Value.typeOf_moved]
  exact Value.coerce_blind (.int _) _

omit [Relocation] in
theorem order?_frame (a : Value) (f : Frame) : order? a (.frame f) = none := by
  cases a <;> simp [order?, Value.kind, Kind.isInteger, Kind.isNumeric, Kind.rank]

theorem order?_moved (a b : Value) : order? a.moved b.moved = order? a b := by
  rcases Value.frame_or a with ⟨f, rfl⟩ | hasA
  · rfl
  rcases Value.frame_or b with ⟨f, rfl⟩ | hasB
  · rw [Value.moved_frame, order?_frame, order?_frame]
  rw [hasA, hasB]

theorem ordered_blind (test : Ordering → Bool) (a b : Value) :
    Blind moved (ordered test a b) (ordered test a.moved b.moved) := by
  unfold ordered
  rw [order?_moved]
  split
  · exact .pure_eq rfl
  · exact refuse_blind moved a b

end Operator

/-! ## Parts of aggregates -/

namespace Aggregate

open Value (moved)

theorem refuse_blind {α α' : Type} (f : α → α') (v : Value) :
    Blind f (do throw (.about .invalidType (v.typeName (← get))) : StoreM α)
      (do throw (.about .invalidType (v.moved.typeName (← get)))) := by
  refine .bind StoreM.get_blind fun s => ?_
  rw [Value.typeName_moved]
  exact .throw _ _

theorem place_blind (v : Value) (size : Nat) : Blind id (place v size) (place v.moved size) := by
  intro s
  have same : indexIn v.moved size s.moved = indexIn v size s := by simp [indexIn]
  refine ⟨?_, rfl⟩
  change (indexIn v.moved size s.moved, _) = _
  rw [same]
  change (indexIn v size s, s.moved) = ((indexIn v size s).map id, s.moved)
  cases indexIn v size s <;> rfl

theorem item_blind (container index : Value) :
    Blind moved (item container index) (item container.moved index.moved) := by
  cases container with
  | array r =>
    refine .bind StoreM.get_blind fun s => ?_
    simp only [Store.array_moved, ArrayObject.moved_items, Array.size_map]
    refine .bind (place_blind index _) fun i => .pure_eq ?_
    exact Store.getD_map rfl _ i
  | string text =>
    refine .bind (place_blind index _) fun i => .pure_eq ?_
    simp only [charValue, id_eq]
    split <;> rfl
  | map r => exact r.find_blind index
  | struct r =>
    refine .bind StoreM.get_blind fun s => ?_
    simp only [Store.struct_moved, Value.display_moved, StructRef.getInherited?_moved]
    cases StructRef.getInherited? s (s.struct r) (index.display s) with
    | some v => exact .pure _ v
    | none => exact .throw _ _
  | _ => exact refuse_blind moved _

theorem setItem_blind (container index v : Value) :
    Blind id (setItem container index v) (setItem container.moved index.moved v.moved) := by
  cases container with
  | array r =>
    refine .bind (StoreM.read_blind (f := id) fun s => by simp) fun (readonly, size, element) =>
      .ite ?_ ?_
    · refine .bind StoreM.get_blind fun s => ?_
      rw [Value.display_moved]
      exact .throw _ _
    · refine .bind (place_blind index size) fun i => .bind (Value.coerce_blind v element) fun v =>
        StoreM.modify_blind (fun s => s.modifyArray_moved (fun a => ?_) r) fun _ => rfl
      simp [ArrayObject.moved]
  | map r => exact r.set_blind index v
  | struct r =>
    refine .bind StoreM.get_blind fun s => ?_
    rw [Value.display_moved]
    exact r.set_blind _ v
  | _ => exact refuse_blind id _

theorem slice_blind (container lo hi : Value) :
    Blind moved (slice container lo hi) (slice container.moved lo.moved hi.moved) := by
  refine .bind StoreM.get_blind fun s => ?_
  have name := congrArg (Fault.about .invalidType) (Value.typeName_moved s container)
  simp only [Value.length?_moved, sliceFault, Value.display_moved]
  cases container.length? s with
  | none => exact .throw_eq name
  | some size =>
    have bounds : bounds? lo.moved hi.moved size = bounds? lo hi size := by
      simp [bounds?, bound?]
    simp only [bounds]
    cases bounds? lo hi size with
    | none => exact .throw _ _
    | some b =>
      cases container with
      | array r =>
        simp only [Value.moved_array, Store.array_moved, ArrayObject.moved_element,
          ArrayObject.moved_items, ← Array.map_extract]
        exact StoreM.array_blind _ _
      | string text => exact .pure_eq rfl
      | _ => exact .throw_eq name

theorem field?_moved (s : Store) (r : StructRef) (name : String) (inherited : Bool) :
    field? s.moved r name inherited = (field? s r name inherited).map moved := by
  simp only [field?, Store.struct_moved, StructObject.get?_moved, StructRef.getInherited?_moved]
  cases (s.struct r).get? name with
  | some v => rfl
  | none =>
    simp only [Option.map_none, Option.filter_map, Function.comp_def, Value.isCallable_moved]

theorem part_blind (v : Value) (name : String) (part : Option Value) : Blind moved
    (match part.or ((Native.method? v.kind name).map Value.native) with
      | some v => pure v
      | none => throw (.about .invalidField name) : StoreM Value)
    (match (part.map moved).or ((Native.method? v.moved.kind name).map Value.native) with
      | some v => pure v
      | none => throw (.about .invalidField name)) := by
  cases part with
  | some v => exact .pure _ v
  | none =>
    rw [Value.kind_moved]
    cases Native.method? v.kind name with
    | some m => exact .pure_eq rfl
    | none => exact .throw _ _

theorem member_blind (v : Value) (name : String) (inherited : Bool) :
    Blind moved (member v name inherited) (member v.moved name inherited) := by
  have found := part_blind v name
  cases v with
  | struct r =>
    refine .bind StoreM.get_blind fun s => .bind (.pure_eq ?_) found
    exact field?_moved s r name inherited
  | map r => exact .bind (.map (r.find_blind (.string name)) fun _ => rfl) found
  | _ => exact .bind (.pure_eq rfl) found

theorem copies_blind (v : Value) (count : Nat) (done : Array Value) :
    Blind (Array.map moved) (copies v count done) (copies v.moved count (done.map moved)) := by
  induction count generalizing done with
  | zero => exact .pure _ _
  | succ count ih =>
    refine .bind v.copy_blind fun copied => ?_
    rw [← Array.map_push]
    exact ih _

theorem pairs_moved : (vs : List Value) →
    pairs (vs.map moved) = (pairs vs).map (Prod.map moved moved)
  | [] | [_] => rfl
  | _ :: _ :: rest => congrArg (_ :: ·) (pairs_moved rest)

theorem mapOf_blind (t : Ty) (entries : List (Value × Value)) :
    Blind moved (mapOf t entries) (mapOf t (entries.map (Prod.map moved moved))) := by
  unfold mapOf
  refine .bind (StoreM.map_blind { keyType := t.keyType, valueType := t.elementType }) fun v => ?_
  cases v with
  | map r =>
    have sets (entries : List (Value × Value)) : Blind id
        (forIn entries PUnit.unit fun x _ => do
          r.set x.1 x.2
          pure (ForInStep.yield PUnit.unit) : StoreM PUnit)
        (forIn (entries.map (Prod.map moved moved)) PUnit.unit fun x _ => do
          r.set x.1 x.2
          pure (ForInStep.yield PUnit.unit)) := by
      induction entries with
      | nil => exact .pure id _
      | cons e rest ih =>
        simp only [List.map_cons, List.forIn_cons, bind_assoc, pure_bind]
        exact .bind (r.set_blind e.1 e.2) fun _ => ih
    exact .bind (sets entries) fun _ => .pure _ (Value.map r)
  | _ => exact .pure _ _

theorem packageOf_blind (name : String) (entries : List (Value × Value)) :
    Blind moved (packageOf name entries) (packageOf name (entries.map (Prod.map moved moved))) := by
  refine .bind StoreM.get_blind fun s => ?_
  have grown (fields : List (String × Value)) :
      (entries.map (Prod.map moved moved)).foldl
          (fun fs e => Association.insert (e.1.display s.moved) e.2 fs) (mapValues moved fields) =
        mapValues moved
          (entries.foldl (fun fs e => Association.insert (e.1.display s) e.2 fs) fields) := by
    induction entries generalizing fields with
    | nil => rfl
    | cons e rest ih => simp [ih]
  have made := StoreM.struct_blind { StructObject.ofPackage name with
    fields := entries.foldl (fun fs e => Association.insert (e.1.display s) e.2 fs) [] }
  rw [StructObject.moved, ← grown] at made
  exact made

theorem structOf_blind (entries : List (Value × Value)) :
    Blind moved (structOf entries) (structOf (entries.map (Prod.map moved moved))) := by
  refine .bind (.foldlM (g := StructObject.moved) (fun o e => ?_) entries {}) fun o =>
    StoreM.struct_blind o
  refine .bind StoreM.get_blind fun s => ?_
  rw [Value.display_moved]
  exact StructRef.stored_blind o _ e.2

end Aggregate

end StackScript
