import StackScript.Proofs.Objects
import StackScript.Machine.Aggregate
import StackScript.Template.Render

/-!
# Computations on objects spare names

Conversions, operators, maps, structs, templates and aggregates leave the tables of names that are
there, and the units, as they are.

Main statements: `StructRef.set_sparing`, `Template.render_sparing` and `Aggregate.setItem_sparing`.
-/
namespace StackScript

open StoreM (Within)

/-- The tables and units that are there stay as they are. -/
structure Store.Spares (s s' : Store) : Prop where
  codes : s'.codes = s.codes
  tables : ∃ more : Array Table, s'.tables = s.tables ++ more

namespace Store.Spares

variable {s s' s'' : Store}

theorem of_same (tables : s'.tables = s.tables) (codes : s'.codes = s.codes) : s.Spares s' :=
  ⟨codes, #[], by simpa using tables⟩

theorem refl (s : Store) : s.Spares s := .of_same rfl rfl

theorem trans (first : s.Spares s') (second : s'.Spares s'') : s.Spares s'' := by
  obtain ⟨codes, more, tables⟩ := first
  obtain ⟨codes', more', tables'⟩ := second
  exact ⟨codes'.trans codes, more ++ more', by rw [tables', tables, Array.append_assoc]⟩

theorem newTable (s : Store) (t : Table) : s.Spares (s.newTable t).2 :=
  ⟨rfl, #[t], Array.push_eq_append⟩

theorem size_le (h : s.Spares s') : s.tables.size ≤ s'.tables.size := by
  obtain ⟨-, more, tables⟩ := h
  simp [tables]

theorem table (h : s.Spares s') {r : TableRef} (there : r.index < s.tables.size) :
    s'.table r = s.table r := by
  obtain ⟨-, more, tables⟩ := h
  simp [Store.table, Array.getD_eq_getD_getElem?, tables, Array.getElem?_append_left there]

end Store.Spares

/-- New objects are neither tables nor units. -/
theorem Store.spares_addsObjects : Store.AddsObjects Store.Spares where
  refl := .refl
  trans := .trans
  array _ _ := .of_same rfl rfl
  struct _ _ := .of_same rfl rfl
  map _ _ := .of_same rfl rfl
  waitGroup _ := .of_same rfl rfl
  mutex _ := .of_same rfl rfl

/-- A computation that changes and adds objects, but no names. -/
def StoreM.Sparing {α : Type} (m : StoreM α) : Prop := Within Store.Spares m

namespace StoreM.Sparing

variable {α β : Type} {m : StoreM α}

theorem pure (a : α) : Sparing (Pure.pure a) := Within.pure Store.spares_addsObjects a

theorem throw {f : Fault} (noControl : f.kind.isControl = false) :
    Sparing (MonadExcept.throw f : StoreM α) := Within.throw Store.spares_addsObjects noControl

theorem bind {f : α → StoreM β} (hm : Sparing m) (hf : ∀ a, Sparing (f a)) : Sparing (m >>= f) :=
  Within.bind Store.spares_addsObjects hm hf

theorem map (hm : Sparing m) (f : α → β) : Sparing (f <$> m) :=
  Within.map Store.spares_addsObjects hm f

theorem get : Sparing (MonadState.get : StoreM Store) := Within.get Store.spares_addsObjects

theorem ite {p : Prop} [Decidable p] {yes no : StoreM α} (hyes : Sparing yes) (hno : Sparing no) :
    Sparing (if p then yes else no) := Within.ite hyes hno

theorem tryCatch {f : Fault → StoreM α} (hm : Sparing m) (hf : ∀ e, Sparing (f e)) :
    Sparing (MonadExcept.tryCatch m f) := Within.tryCatch Store.spares_addsObjects hm hf

theorem listMapM {f : α → StoreM β} (hf : ∀ a, Sparing (f a)) (items : List α) :
    Sparing (items.mapM f) := Within.listMapM Store.spares_addsObjects hf items

theorem foldlM {f : β → α → StoreM β} (hf : ∀ b a, Sparing (f b a)) (items : List α) (start : β) :
    Sparing (items.foldlM f start) := by
  induction items generalizing start with
  | nil => exact pure start
  | cons a rest ih => exact bind (hf start a) ih

/-- Changing objects that are no tables. -/
theorem changing {f : Store → Store} (tables : ∀ s, (f s).tables = s.tables)
    (codes : ∀ s, (f s).codes = s.codes) : Sparing (modify f) :=
  Within.of_ok (fun s => .of_same (tables s) (codes s)) fun _ => ⟨(), rfl⟩

theorem array (element : Ty) (items : Array Value) : Sparing (StoreM.array element items) :=
  Within.array Store.spares_addsObjects element items

theorem struct (o : StructObject) : Sparing (StoreM.struct o) :=
  Within.struct Store.spares_addsObjects o

theorem newMap (m : MapObject) : Sparing (StoreM.map m) := Within.newMap Store.spares_addsObjects m

theorem channel (element : Ty) (capacity : Nat) : Sparing (StoreM.channel element capacity) :=
  Within.of_ok (fun _ => .of_same rfl rfl) fun _ => ⟨_, rfl⟩

theorem coerce (v : Value) (t : Ty) : Sparing (v.coerce t) :=
  Value.coerce_within Store.spares_addsObjects v t

theorem zero (t : Ty) : Sparing (Value.zero t) :=
  Value.zeroNamed_within Store.spares_addsObjects none t

theorem copy (v : Value) : Sparing v.copy := Value.copy_within Store.spares_addsObjects v

end StoreM.Sparing

open StoreM (Sparing)

variable {α : Type}

/-! ## Maps and structs -/

namespace MapRef

variable (r : MapRef) (k v : Value)

theorem key_sparing : Sparing (r.key k) := r.key_within Store.spares_addsObjects k

theorem find_sparing : Sparing (r.find k) := r.find_within Store.spares_addsObjects k

theorem contains_sparing : Sparing (r.contains k) :=
  .tryCatch (.bind (r.key_sparing k) fun _ => .bind .get fun _ => .pure _)
    fun _ => .pure _

theorem refuse_sparing : Sparing (refuse k) := .bind .get fun _ => .throw rfl

theorem set_sparing : Sparing (r.set k v) :=
  .bind .get fun _ => .ite (refuse_sparing k) <| .bind (r.key_sparing k) fun _ =>
    .bind (.coerce v _) fun _ => .changing (fun _ => rfl) fun _ => rfl

theorem delete_sparing : Sparing (r.delete k) :=
  .bind .get fun _ => .ite (.bind (refuse_sparing k) fun _ => .pure _) <|
    .bind (r.key_sparing k) fun _ => .bind (.changing (fun _ => rfl) fun _ => rfl) fun _ => .pure _

end MapRef

namespace StructRef

theorem stored_sparing (o : StructObject) (name : String) (v : Value) :
    Sparing (stored o name v) := stored_within Store.spares_addsObjects o name v

theorem set_sparing (r : StructRef) (name : String) (v : Value) : Sparing (r.set name v) :=
  .bind .get fun _ => .bind (stored_sparing _ name v) fun _ => .changing (fun _ => rfl) fun _ => rfl

theorem delete_sparing (r : StructRef) (name : String) : Sparing (r.delete name) :=
  .bind .get fun _ => .ite (.throw rfl) (.changing (fun _ => rfl) fun _ => rfl)

end StructRef

/-! ## Templates -/

namespace Template

theorem missingField_sparing (name : String) : Sparing (missingField name : StoreM α) := .throw rfl

theorem field_sparing (name : String) (v : Value) : Sparing (field name v) := by
  refine .bind .get fun s => ?_
  split
  · split
    · exact .pure _
    · exact missingField_sparing name
  · exact MapRef.find_sparing _ _
  · split
    · split
      · exact .pure _
      · exact missingField_sparing name
    · exact missingField_sparing name
  · exact .pure _
  · exact missingField_sparing name

theorem follow_sparing (names : List String) (v : Value) : Sparing (follow v names) := by
  induction names generalizing v with
  | nil => exact .pure v
  | cons name rest ih => exact .bind (field_sparing name v) ih

theorem eval_sparing (data : Value) : (e : Expr) → Sparing (e.eval data)
  | .here => .pure _
  | .string _ => .pure _
  | .int _ => .pure _
  | .not inner => .bind (eval_sparing data inner) fun _ => .pure _
  | .path names => follow_sparing names data

theorem entry_sparing (r : MapRef) (k : Value) : Sparing (entry r k) :=
  .tryCatch (r.find_sparing k) fun _ => .pure _

theorem elements_sparing (v : Value) : Sparing (elements v) := by
  refine .bind .get fun s => ?_
  split
  · exact .pure _
  · exact .listMapM (entry_sparing _) _
  · exact .pure _
  · exact .pure _
  · exact .throw rfl

mutual
theorem renderNode_sparing (data : Value) : (node : Node) → Sparing (renderNode data node)
  | .literal _ => .pure _
  | .output e => .bind (eval_sparing data e) fun _ => .ite (.pure _) (.bind .get fun _ => .pure _)
  | .choice condition body otherwise => .bind (eval_sparing data condition) fun _ =>
    .ite (renderNodes_sparing data body) (renderOption_sparing data otherwise)
  | .range e body => .bind (eval_sparing data e) fun v => .bind (elements_sparing v) fun items =>
    .bind (.listMapM (fun item => renderNodes_sparing item body) items) fun _ => .pure _

theorem renderNodes_sparing (data : Value) : (nodes : List Node) → Sparing (renderNodes data nodes)
  | [] => .pure _
  | node :: rest => .bind (renderNode_sparing data node) fun _ =>
    .bind (renderNodes_sparing data rest) fun _ => .pure _

theorem renderOption_sparing (data : Value) : (nodes : Option (List Node)) →
    Sparing (renderOption data nodes)
  | none => .pure _
  | some nodes => renderNodes_sparing data nodes
end

theorem render_sparing (t : Template) (data : Value) : Sparing (t.render data) :=
  renderNodes_sparing data t.nodes

end Template

/-! ## Aggregates -/

namespace Aggregate

theorem place_sparing (v : Value) (size : Nat) : Sparing (place v size) :=
  place_within Store.spares_addsObjects v size

theorem item_sparing (container index : Value) : Sparing (item container index) :=
  item_within Store.spares_addsObjects container index

theorem setItem_sparing (container index v : Value) : Sparing (setItem container index v) := by
  unfold setItem
  split
  · refine .bind (fun s => ⟨.refl s, nofun⟩) fun (readonly, size, element) => ?_
    refine .ite (.bind .get fun _ => .throw rfl) <| .bind (place_sparing index size) fun i => ?_
    exact .bind (.coerce v element) fun v => .changing (fun _ => rfl) fun _ => rfl
  · exact MapRef.set_sparing _ index v
  · exact .bind .get fun _ => StructRef.set_sparing _ _ v
  · exact .bind .get fun _ => .throw rfl

theorem slice_sparing (container lo hi : Value) : Sparing (slice container lo hi) := by
  refine .bind .get fun s => ?_
  split
  · exact .throw rfl
  · split
    · exact .throw rfl
    · split
      · exact .array _ _
      · exact .pure _
      · exact .throw rfl

theorem part_sparing (v : Value) (name : String) (part : Option Value) : Sparing
    (match part.or ((Native.method? v.kind name).map Value.native) with
      | some v => pure v
      | none => throw (.about .invalidField name) : StoreM Value) := by
  split
  · exact .pure _
  · exact .throw rfl

theorem member_sparing (v : Value) (name : String) (inherited : Bool) :
    Sparing (member v name inherited) := by
  unfold member
  split
  · exact .bind .get fun _ => .bind (.pure _) (part_sparing _ name)
  · exact .bind (.map (MapRef.find_sparing _ _) _) (part_sparing _ name)
  · exact .bind (.pure _) (part_sparing _ name)

theorem copies_sparing (v : Value) (count : Nat) (done : Array Value) :
    Sparing (copies v count done) := by
  induction count generalizing done with
  | zero => exact .pure _
  | succ count ih => exact .bind (.copy v) fun _ => ih _

theorem mapOf_sparing (t : Ty) (entries : List (Value × Value)) : Sparing (mapOf t entries) := by
  refine .bind (.newMap _) fun v => ?_
  cases v with
  | map r =>
    have sets : Sparing (forIn entries PUnit.unit fun x _ => do
        r.set x.1 x.2
        pure (ForInStep.yield PUnit.unit) : StoreM PUnit) := by
      induction entries with
      | nil => exact .pure _
      | cons e rest ih =>
        simp only [List.forIn_cons, bind_assoc, pure_bind]
        exact .bind (r.set_sparing e.1 e.2) fun _ => ih
    exact .bind sets fun _ => .pure _
  | _ => exact .pure _

theorem packageOf_sparing (name : String) (entries : List (Value × Value)) :
    Sparing (packageOf name entries) := .bind .get fun _ => .struct _

theorem structOf_sparing (entries : List (Value × Value)) : Sparing (structOf entries) :=
  .bind (.foldlM (fun o (_, v) => .bind .get fun _ => StructRef.stored_sparing o _ v) _ _)
    fun _ => .struct _

end Aggregate

end StackScript
